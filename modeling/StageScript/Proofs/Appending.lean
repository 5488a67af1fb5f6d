import StageScript.Proofs.BlankLines
import StageScript.Proofs.LineStart
import StageScript.Proofs.Splicing

set_option autoImplicit false

/-! # Going on behind a token

When a text goes on behind a token with which it ends, all its items stay what they are:
`Scanner.itemsAt_append`. What is put between such a script and an arrow, blanks and newlines, adds
only the newlines to the items (`exists_items_of_endsInToken`), and how many of them there are makes
no difference once runs of newlines are cut down (`squeeze_append_newlines`). -/

namespace StageScript

open Scanner

/-! ## Text behind a token -/

namespace Scanner

/-- Gaps and errors depend on nothing behind the character that comes next. -/
theorem shape_append_cons {c d : Char} {w m : List Char} {s : Shape}
    (hs : ∀ kind, s ≠ .token kind) (h : shape c (w ++ d :: m) = (s, w.length)) (more : List Char) :
    shape c (w ++ d :: more) = (s, w.length) := by
  have hline : restOfLine (w ++ d :: m) = w.length → restOfLine (w ++ d :: more) = w.length := by
    intro hlength
    obtain ⟨hw, hhead⟩ := length_takeWhile_append_iff.1 hlength
    exact length_takeWhile_append_iff.2 ⟨hw, hhead⟩
  refine shape_cases (P := fun f => f (w ++ d :: m) = (s, w.length) →
    f (w ++ d :: more) = (s, w.length)) c ?_ ?_ ?_ ?_ ?_ ?_ ?_ h
  · intro _ hcomment
    obtain ⟨rfl, hlength⟩ := Prod.mk.inj hcomment
    exact congrArg _ (hline hlength)
  · exact fun _ hblank => hblank
  · exact fun _ hsingle => hsingle
  · intro plain withEqual hsign
    cases w <;> exact hsign
  · intro hstring
    dsimp only at hstring ⊢
    split at hstring
    · obtain ⟨rfl, -⟩ := Prod.mk.inj hstring
      exact absurd rfl (hs _)
    · next hclose =>
      -- the end of its line stands behind an unclosed string
      obtain ⟨rfl, hlength⟩ := Prod.mk.inj hstring
      obtain rfl : d = '\n' := by
        simpa using (length_takeWhile_append_iff.1 hlength).2 d rfl
      rw [closing?_append_newline] at hclose
      rw [closing?_append_newline, hclose]
      exact congrArg _ (hline hlength)
  · intro hnumber
    exact absurd (Prod.mk.inj hnumber).1.symm (hs _)
  · intro hword
    exact absurd (Prod.mk.inj hword).1.symm (hs _)

/-- What starts a text stays what it is when the text goes on behind a token. -/
theorem shape_append {c : Char} {w m after : List Char} {s : Shape} (hafter : Separated after)
    (hm : (∀ kind, s ≠ .token kind) → m ≠ []) (h : shape c (w ++ m) = (s, w.length)) :
    shape c (w ++ (m ++ after)) = (s, w.length) := by
  by_cases hs : ∀ kind, s ≠ .token kind
  · obtain ⟨d, m, rfl⟩ := List.exists_cons_of_ne_nil (hm hs)
    exact shape_append_cons hs h (m ++ after)
  · obtain ⟨kind, rfl⟩ : ∃ kind, s = .token kind := by simpa using hs
    rw [← List.append_nil m] at h
    exact shape_replace hafter h

/-- What starts a text ends somewhere in it. -/
theorem exists_shape_eq (c : Char) (cs : List Char) :
    ∃ s w m, cs = w ++ m ∧ shape c (w ++ m) = (s, w.length) := by
  refine ⟨(shape c cs).1, cs.take (shape c cs).2, cs.drop (shape c cs).2, by simp, ?_⟩
  rw [List.take_append_drop, List.length_take, Nat.min_eq_left (shape_le c cs)]

theorem itemsAt_of_shape {c : Char} {w m : List Char} {s : Shape} (p : Place)
    (h : shape c (w ++ m) = (s, w.length)) :
    itemsAt 0 p (c :: (w ++ m)) =
      (s.item? p (c :: w)).toList ++ itemsAt 0 (p.afterAll (c :: w)) m := by
  rw [itemsAt_cons, h, List.take_left, List.drop_left]

theorem itemsAt_last {c : Char} {w : List Char} {kind : TokenKind} (p : Place)
    (h : shape c w = (.token kind, w.length)) :
    itemsAt 0 p (c :: w) = [.token (tokenAt p kind (c :: w))] := by
  have h' : shape c (w ++ []) = (.token kind, w.length) := by rwa [List.append_nil]
  have hitems := itemsAt_token p h'
  rwa [List.append_nil, itemsAt] at hitems

/-- The scan of the text ends behind a token that is no newline. -/
inductive EndsInToken : List Char → Prop where
  | last {c : Char} {w : List Char} {kind : TokenKind} (hk : kind ≠ .newline)
    (h : shape c w = (.token kind, w.length)) : EndsInToken (c :: w)
  | behind {c : Char} {w m : List Char} {s : Shape} (h : shape c (w ++ m) = (s, w.length))
    (hm : EndsInToken m) : EndsInToken (c :: (w ++ m))

theorem EndsInToken.ne_nil {cs : List Char} (h : EndsInToken cs) : cs ≠ [] := by
  cases h <;> exact List.cons_ne_nil _ _

theorem EndsInToken.getLast?_itemsAt {cs : List Char} (h : EndsInToken cs) (p : Place) :
    ∃ t, (itemsAt 0 p cs).getLast? = some (.token t) ∧ t.kind ≠ .newline := by
  induction h generalizing p with
  | @last c w kind hk h =>
    exact ⟨tokenAt p kind (c :: w), by rw [itemsAt_last p h, List.getLast?_singleton], hk⟩
  | @behind c w m s h hm ih =>
    obtain ⟨t, ht, hk⟩ := ih (p.afterAll (c :: w))
    exact ⟨t, by rw [itemsAt_of_shape p h, List.getLast?_append, ht]; rfl, hk⟩

/-- The items of a text that ends in a token stay what they are when it goes on. -/
theorem itemsAt_append {cs after : List Char} (hcs : EndsInToken cs) (hafter : Separated after)
    (p : Place) :
    itemsAt 0 p (cs ++ after) = itemsAt 0 p cs ++ itemsAt 0 (p.afterAll cs) after := by
  induction hcs generalizing p with
  | @last c w kind hk h =>
    have hmore : shape c (w ++ ([] ++ after)) = (.token kind, w.length) :=
      shape_append hafter (fun hs => absurd rfl (hs kind)) (by rwa [List.append_nil])
    rw [List.nil_append] at hmore
    rw [itemsAt_token p hmore, itemsAt_last p h, List.singleton_append]
  | @behind c w m s h hm ih =>
    have hplace : (p.afterAll (c :: w)).afterAll m = p.afterAll (c :: (w ++ m)) :=
      (Place.afterAll_append p (c :: w) m).symm
    rw [List.cons_append, List.append_assoc, itemsAt_of_shape p h,
      itemsAt_of_shape p (shape_append hafter (fun _ => hm.ne_nil) h), ih, hplace,
      List.append_assoc]

/-- Nothing stands behind a token that stops where its text does. -/
theorem eq_nil_of_stop {p : Place} {kind : TokenKind} {w m : List Char}
    (h : (tokenAt p kind w).span.stop = p.offset + Text.byteCount (w ++ m)) : m = [] := by
  have hsmall : (tokenAt p kind w).span.stop < 4294967296 := UInt32.toNat_lt _
  rw [Text.byteCount_append] at h
  have hstop : (tokenAt p kind w).span.stop = p.offset + Text.byteCount w :=
    Span.stop_between (by omega) (by omega)
  by_contra hne
  have := Text.byteCount_pos hne
  omega

/-- A text ends in a token if its last token stops where the text does. -/
theorem endsInToken_of_stop {p : Place} {cs : List Char} {t : Token}
    (hlast : (itemsAt 0 p cs).getLast? = some (.token t)) (hk : t.kind ≠ .newline)
    (hstop : t.span.stop = p.offset + Text.byteCount cs) : EndsInToken cs := by
  match cs with
  | [] => cases hlast
  | c :: cs =>
    obtain ⟨s, w, m, heq, hshape⟩ := exists_shape_eq c cs
    rw [heq] at hlast hstop ⊢
    have hrest : (p.afterAll (c :: w)).offset + Text.byteCount m =
        p.offset + Text.byteCount (c :: (w ++ m)) := by
      rw [Place.afterAll_eq, ← List.cons_append, Text.byteCount_append, Nat.add_assoc]
    rw [itemsAt_of_shape p hshape] at hlast
    cases hitems : itemsAt 0 (p.afterAll (c :: w)) m with
    | cons x xs =>
      -- the last token is behind this item
      rw [hitems, List.getLast?_append_of_ne_nil _ (List.cons_ne_nil x xs), ← hitems] at hlast
      exact .behind hshape (endsInToken_of_stop hlast hk (hstop.trans hrest.symm))
    | nil =>
      rw [hitems, List.append_nil] at hlast
      cases s with
      | gap | error kind => cases hlast
      | token kind =>
        obtain rfl : tokenAt p kind (c :: w) = t := Item.token.inj (Option.some.inj hlast)
        obtain rfl : m = [] := eq_nil_of_stop hstop
        rw [List.append_nil] at hshape ⊢
        exact .last hk hshape
termination_by cs.length
decreasing_by simp only [heq, List.length_cons, List.length_append]; omega

/-- Of blanks and newlines, the newlines are items. -/
theorem exists_itemsAt_layout {gap : List Char} (h : ∀ c ∈ gap, isGap c = true ∨ c = '\n')
    (p : Place) (rest : List Char) :
    ∃ ns : List Token, (∀ n ∈ ns, n.kind = .newline ∧ n.text = "\n") ∧
      ns.length = gap.count '\n' ∧
      itemsAt 0 p (gap ++ rest) = ns.map .token ++ itemsAt 0 (p.afterAll gap) rest := by
  induction gap generalizing p with
  | nil => exact ⟨[], by simp, rfl, rfl⟩
  | cons c gap ih =>
    obtain ⟨hc, hgap⟩ := List.forall_mem_cons.1 h
    obtain ⟨ns, hns, hlength, hitems⟩ := ih hgap (p.after c)
    rcases hc with hc | rfl
    · have hne : c ≠ '\n' := by
        rintro rfl
        exact absurd hc (by decide)
      have hblank : ∀ d ∈ [c], isGap d = true := by simpa using hc
      exact ⟨ns, hns, by rw [hlength, List.count_cons_of_ne hne],
        (itemsAt_gaps hblank p (gap ++ rest)).trans hitems⟩
    · exact ⟨tokenAt p .newline ['\n'] :: ns, List.forall_mem_cons.2 ⟨⟨rfl, rfl⟩, hns⟩,
        by rw [List.length_cons, hlength, List.count_cons_self],
        (itemsAt_token p (w := []) rfl).trans (congrArg _ hitems)⟩

/-- What the items of some characters are does not depend on where these stand. -/
theorem map_content_itemsAt (p q : Place) (cs : List Char) :
    (itemsAt 0 p cs).map Item.content = (itemsAt 0 q cs).map Item.content := by
  match cs with
  | [] => rfl
  | c :: cs =>
    rw [itemsAt_cons, itemsAt_cons, List.map_append, List.map_append]
    refine congrArg₂ _ ?_ (map_content_itemsAt _ _ _)
    cases (shape c cs).1 <;> rfl
termination_by cs.length
decreasing_by simp only [List.length_cons, List.length_drop]; omega

theorem itemsAt_arrow (p : Place) (cs : List Char) :
    itemsAt 0 p ('→' :: cs) =
      .token (tokenAt p .arrow ['→']) :: itemsAt 0 (p.afterAll ['→']) cs :=
  itemsAt_token p (w := []) rfl

end Scanner

/-! ## Before an arrow -/

/-- The items of a script with blanks and newlines before an arrow. -/
theorem exists_items_of_endsInToken {front : String} (h : EndsInToken front.toList) {gap : String}
    (hgap : ∀ c ∈ gap.toList, isGap c = true ∨ c = '\n') (rest : String) :
    ∃ ns : List Token, (∀ n ∈ ns, n.kind = .newline ∧ n.text = "\n") ∧
      ns.length = gap.toList.count '\n' ∧
      (Stream.ofString (front ++ gap ++ "→" ++ rest)).items =
        (Stream.ofString front).items ++ (ns.map .token ++
          itemsAt 0 (Place.start.afterAll (front ++ gap).toList) ('→' :: rest.toList)) := by
  have hseparated : Separated (gap.toList ++ '→' :: rest.toList) := by
    cases hcs : gap.toList with
    | nil => exact separated_cons (by decide +kernel) _
    | cons c cs =>
      refine separated_cons ?_ _
      rcases hgap c (by rw [hcs]; exact List.mem_cons_self) with hc | rfl
      · exact Stream.separates_of_isGap hc
      · decide +kernel
  obtain ⟨ns, hns, hlength, hitems⟩ := exists_itemsAt_layout hgap
    (Place.start.afterAll front.toList) ('→' :: rest.toList)
  have htext : (front ++ gap ++ "→" ++ rest).toList =
      front.toList ++ (gap.toList ++ '→' :: rest.toList) := by simp
  refine ⟨ns, hns, hlength, ?_⟩
  change itemsAt 0 Place.start (front ++ gap ++ "→" ++ rest).toList =
    itemsAt 0 Place.start front.toList ++ _
  rw [htext, itemsAt_append h hseparated, hitems, String.toList_append, Place.afterAll_append]

/-! ## Runs of newlines -/

/-- Newlines behind a newline are cut off. -/
theorem squeeze_append_newlines {n : Token} {ns : List Token} (hn : n.kind = .newline)
    (hns : ∀ m ∈ ns, m.kind = .newline) (xs ys : List Item) (skip : Bool) :
    squeeze skip (xs ++ .token n :: (ns.map .token ++ ys)) =
      squeeze skip (xs ++ .token n :: ys) := by
  have hnewline : ∀ {m : Token}, m.kind = .newline → Parser.isNewline (.token m) = true := by
    intro m hm
    simp [Parser.isNewline, hm]
  induction xs generalizing skip with
  | nil =>
    have hdrop : squeeze true (ns.map .token ++ ys) = squeeze true ys := by
      rw [squeeze_true, squeeze_true, List.dropWhile_append_of_pos]
      exact List.forall_mem_map.2 fun m hm => hnewline (hns m hm)
    rw [List.nil_append, List.nil_append, squeeze, squeeze, hnewline hn, hdrop]
  | cons x xs ih => rw [List.cons_append, List.cons_append, squeeze, squeeze, ih, ih]

theorem Item.isNewline_congr {x y : Item} (h : x.content = y.content) :
    Parser.isNewline y = Parser.isNewline x := by
  cases x with
  | token t =>
    cases y with
    | token u =>
      obtain ⟨hk, -⟩ := Prod.mk.inj (Except.ok.inj h)
      simp [Parser.isNewline, hk]
    | error e => cases h
  | error e =>
    cases y with
    | token u => cases h
    | error f => rfl

theorem Item.forall₂_content_iff {xs ys : List Item} :
    List.Forall₂ (fun x y => x.content = y.content) xs ys ↔
      xs.map Item.content = ys.map Item.content := by
  rw [← List.forall₂_eq_eq_eq, List.forall₂_map_left_iff, List.forall₂_map_right_iff]

/-- Squeezing looks at nothing but what the items are. -/
theorem map_content_squeeze {xs ys : List Item} (h : xs.map Item.content = ys.map Item.content)
    (skip : Bool) :
    (squeeze skip xs).map Item.content = (squeeze skip ys).map Item.content :=
  Item.forall₂_content_iff.1 <|
    forall₂_squeeze (fun _ _ => Item.isNewline_congr) (Item.forall₂_content_iff.2 h) skip

end StageScript
