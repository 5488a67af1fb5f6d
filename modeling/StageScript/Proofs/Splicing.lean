import StageScript.Proofs.Numbers
import StageScript.Proofs.Respacing

set_option autoImplicit false

/-! # Cutting a text between its tokens

A text can be cut behind each of its tokens, and something else can be put behind the cut, if it
starts with a separating character: no token before the cut changes. `Scanner.Scans` are tokens
that are scanned off the front of a text; `scans_of_items` makes the cut and `Scans.replace` puts
the other text behind it. -/

namespace StageScript.Scanner

/-! ## One token -/

section Replace

variable {m after after' : List Char}

/-- Separating characters are in none of the classes that go on with a token. -/
theorem head?_replace {p : Char → Bool} (hafter : ∀ d ∈ after'.head?, p d = false)
    (h : ∀ d ∈ (m ++ after).head?, p d = false) : ∀ d ∈ (m ++ after').head?, p d = false := by
  cases m with
  | nil => exact hafter
  | cons d m => exact h

theorem startsFraction_replace (hafter : Separated after') (h : StartsFraction (m ++ after')) :
    StartsFraction (m ++ after) := by
  obtain ⟨point, digit, more, heq, hpoint, hdigit⟩ := h
  match m with
  | [] =>
    have hhead := hafter.head.2.2.1 point (by rw [show after' = _ from heq]; rfl)
    rw [hhead] at hpoint
    cases hpoint
  | [d] =>
    obtain ⟨-, htail⟩ := List.cons.inj heq
    have hhead := hafter.head.2.1 digit (by rw [show after' = _ from htail]; rfl)
    rw [hhead] at hdigit
    cases hdigit
  | d :: d' :: m =>
    obtain ⟨rfl, htail⟩ := List.cons.inj heq
    obtain ⟨rfl, -⟩ := List.cons.inj htail
    exact ⟨d, d', m ++ after, rfl, hpoint, hdigit⟩

theorem equalLength_replace (hafter : Separated after') (h : equalLength (m ++ after) ≠ 1) :
    equalLength (m ++ after') ≠ 1 := by
  cases m with
  | cons d m => exact h
  | nil =>
    cases after' with
    | nil => simp [equalLength]
    | cons d more => simp [equalLength, hafter.head.2.2.2 d rfl]

/-- A token stays what it is when something else is put where the text behind it goes on. -/
theorem shape_replace {c : Char} {w : List Char} {kind : TokenKind} (hafter : Separated after')
    (h : shape c (w ++ (m ++ after)) = (.token kind, w.length)) :
    shape c (w ++ (m ++ after')) = (.token kind, w.length) := by
  refine shape_cases (P := fun f => f (w ++ (m ++ after)) = (.token kind, w.length) →
    f (w ++ (m ++ after')) = (.token kind, w.length)) c ?_ ?_ ?_ ?_ ?_ ?_ ?_ h
  · intro _ hcomment
    cases hcomment
  · intro _ hblank
    cases hblank
  · intro s hs
    exact hs
  · intro plain withEqual hsign
    unfold comparison at hsign ⊢
    cases w with
    | cons d w => exact hsign
    | nil =>
      by_cases hequal : equalLength (m ++ after) = 1
      · rw [List.nil_append, if_pos (by simpa using hequal)] at hsign
        cases hsign
      · rw [List.nil_append, if_neg (by simpa using hequal)] at hsign
        rw [List.nil_append, if_neg (by simpa using equalLength_replace hafter hequal)]
        exact hsign
  · intro hstring
    dsimp only at hstring ⊢
    cases hclose : closing? 1 (w ++ (m ++ after)) with
    | none =>
      rw [hclose] at hstring
      cases hstring
    | some n =>
      rw [hclose] at hstring
      obtain ⟨hkind, rfl⟩ := Prod.mk.inj hstring
      have hkept := (Kept.closing?_take (m ++ after') hclose).2.1
      rw [List.take_left] at hkept
      rw [hkept, hkind]
  · intro hnumber
    obtain ⟨hkind, hlength⟩ := Prod.mk.inj hnumber
    obtain ⟨hdigits, hhead, hfraction⟩ := numberLength_append_iff.1 hlength
    have hlength' : numberLength (w ++ (m ++ after')) = w.length :=
      numberLength_append_iff.2 ⟨hdigits, head?_replace hafter.head.2.1 hhead,
        fun hall hstarts => hfraction hall (startsFraction_replace hafter hstarts)⟩
    show (Shape.token .number, numberLength (w ++ (m ++ after'))) = _
    rw [hlength', hkind]
  · intro hword
    obtain ⟨hkind, hlength⟩ := Prod.mk.inj hword
    obtain ⟨hw, hhead⟩ := length_takeWhile_append_iff.1 hlength
    rw [takeWhile_append_of_head hw hhead] at hkind
    dsimp only
    rw [takeWhile_append_of_head hw (head?_replace hafter.head.1 hhead), hkind]

end Replace

/-! ## Many tokens -/

/-- Before `rest`, the characters from a place on are scanned as the tokens, the last of which ends
    them. -/
inductive Scans (rest : List Char) : Place → List Char → List Token → Prop where
  | nil (p : Place) : Scans rest p [] []
  | cons {p : Place} {gap w cs : List Char} {c : Char} {kind : TokenKind} {ts : List Token}
    (hgap : ∀ d ∈ gap, isGap d = true)
    (hshape : shape c (w ++ (cs ++ rest)) = (.token kind, w.length))
    (h : Scans rest ((p.afterAll gap).afterAll (c :: w)) cs ts) :
    Scans rest p (gap ++ (c :: w ++ cs)) (tokenAt (p.afterAll gap) kind (c :: w) :: ts)

theorem itemsAt_gaps {gap : List Char} (h : ∀ c ∈ gap, isGap c = true) (p : Place)
    (rest : List Char) : itemsAt 0 p (gap ++ rest) = itemsAt 0 (p.afterAll gap) rest :=
  congrArg Stream.items (Stream.streamAt_gaps h p rest)

theorem itemsAt_token {c : Char} {w rest : List Char} {kind : TokenKind} (p : Place)
    (h : shape c (w ++ rest) = (.token kind, w.length)) :
    itemsAt 0 p (c :: w ++ rest) =
      .token (tokenAt p kind (c :: w)) :: itemsAt 0 (p.afterAll (c :: w)) rest := by
  rw [List.cons_append, itemsAt_cons, h, List.take_left, List.drop_left]
  rfl

namespace Scans

variable {rest cs : List Char} {p : Place} {ts : List Token}

theorem items_eq (h : Scans rest p cs ts) :
    itemsAt 0 p (cs ++ rest) = ts.map .token ++ itemsAt 0 (p.afterAll cs) rest := by
  induction h with
  | nil p => rfl
  | @cons p gap w cs c kind ts hgap hshape h ih =>
    rw [List.append_assoc, itemsAt_gaps hgap, List.append_assoc, itemsAt_token _ hshape, ih,
      Place.afterAll_append, Place.afterAll_append]
    rfl

/-- Something else can be put where the text behind the tokens goes on. -/
theorem replace {m after after' : List Char} (h : Scans (m ++ after) p cs ts)
    (hafter : Separated after') : Scans (m ++ after') p cs ts := by
  induction h with
  | nil p => exact .nil p
  | @cons p gap w cs c kind ts hgap hshape h ih =>
    refine .cons hgap ?_ ih
    rw [← List.append_assoc cs] at hshape ⊢
    exact shape_replace hafter hshape

end Scans

/-- Blanks stand before a token that is no newline. -/
theorem exists_gap_of_items {p : Place} {cs : List Char} {t : Token} {xs : List Item}
    (h : itemsAt 0 p cs = .token t :: xs) (ht : t.kind ≠ .newline) :
    ∃ gap c w back, cs = gap ++ (c :: w ++ back) ∧ (∀ d ∈ gap, isGap d = true) ∧
      shape c (w ++ back) = (.token t.kind, w.length) ∧
      t = tokenAt (p.afterAll gap) t.kind (c :: w) ∧
      itemsAt 0 ((p.afterAll gap).afterAll (c :: w)) back = xs := by
  match cs with
  | [] => cases h
  | c :: cs =>
    cases hshape : shape c cs with
    | mk s n =>
      have hsplit : c :: cs = c :: cs.take n ++ cs.drop n := by simp
      have hle := shape_le c cs
      rw [itemsAt_cons, hshape] at h
      cases s with
      | error kind =>
        obtain ⟨hitem, -⟩ := List.cons.inj h
        cases hitem
      | token kind =>
        obtain ⟨hitem, hxs⟩ := List.cons.inj h
        obtain rfl := Item.token.inj hitem
        refine ⟨[], c, cs.take n, cs.drop n, hsplit, by simp, ?_, rfl, hxs⟩
        rw [hshape] at hle
        rw [List.take_append_drop, hshape, List.length_take, Nat.min_eq_left hle]
      | gap =>
        have hitems : itemsAt 0 (p.afterAll (c :: cs.take n)) (cs.drop n) = .token t :: xs := h
        rcases gap_of_shape hshape with ⟨d, hd, hblank⟩ | ⟨mark, body, hbody, -, hline, hend⟩
        · obtain ⟨gap, c', w, back, hback, hgap, htoken, heq, hxs⟩ :=
            exists_gap_of_items hitems ht
          refine ⟨d :: gap, c', w, back, ?_, List.forall_mem_cons.2 ⟨hblank, hgap⟩, htoken, ?_, ?_⟩
          · rw [hsplit, hd, hback]
            rfl
          · rw [hd] at heq
            exact heq
          · rw [hd] at hxs
            exact hxs
        · -- a newline or nothing comes behind a comment
          cases hdrop : cs.drop n with
          | nil =>
            rw [hdrop] at hitems
            cases hitems
          | cons d more =>
            obtain rfl := hend d (by rw [hdrop]; rfl)
            rw [hdrop] at hitems
            obtain ⟨hitem, -⟩ := List.cons.inj hitems
            obtain rfl := Item.token.inj hitem
            exact absurd rfl ht
termination_by cs.length
decreasing_by simp only [List.length_cons, List.length_drop]; omega

/-- A text can be cut behind tokens that stand on its first line. -/
theorem scans_of_items {p : Place} {cs : List Char} {ts : List Token} {xs : List Item}
    (h : itemsAt 0 p cs = ts.map .token ++ xs) (hts : ∀ t ∈ ts, t.kind ≠ .newline) :
    ∃ front back, cs = front ++ back ∧ Scans back p front ts ∧
      itemsAt 0 (p.afterAll front) back = xs := by
  induction ts generalizing p cs with
  | nil => exact ⟨[], cs, rfl, .nil p, h⟩
  | cons t ts ih =>
    obtain ⟨ht, hts⟩ := List.forall_mem_cons.1 hts
    obtain ⟨gap, c, w, back, rfl, hgap, hshape, heq, hitems⟩ := exists_gap_of_items h ht
    obtain ⟨front, rest, rfl, hscans, hrest⟩ := ih hitems hts
    refine ⟨gap ++ (c :: w ++ front), rest, by simp, ?_, ?_⟩
    · rw [heq]
      exact .cons hgap hshape hscans
    · rw [Place.afterAll_append, Place.afterAll_append]
      exact hrest

end StageScript.Scanner
