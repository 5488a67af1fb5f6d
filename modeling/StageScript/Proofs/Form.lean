import StageScript.Proofs.Quoting

set_option autoImplicit false

/-! # Unique reading of nested lists

A form is a word or a parenthesis with a word in front. Where words are free of blanks and
parentheses, strings excepted, which end where their marks balance, a written form can be read in
one way only, whatever follows it (`form_unique`). Main statement: `separatedBy_written_inj`, and so
can forms on lines of their own. -/

namespace StageScript

/-! ## Forms -/

mutual

/-- A word, or a parenthesis with a word in front. -/
inductive Form where
  | word (text : String)
  | list (head : String) (parts : Forms)

inductive Forms where
  | nil
  | cons (first : Form) (rest : Forms)

end

mutual

def Form.written : Form → List Char
  | .word text => text.toList
  | .list head parts => '(' :: (head.toList ++ (parts.written ++ [')']))

/-- Each form behind a blank. -/
def Forms.written : Forms → List Char
  | .nil => []
  | .cons first rest => ' ' :: (first.written ++ rest.written)

end

/-! ## Words -/

/-- A character that a bare word is free of. -/
def isFormMark (c : Char) : Bool := c == ' ' || c == '(' || c == ')' || c == '\n' || c == '「'

/-- What a form can be followed by: nothing, a blank, a closing parenthesis or the end of the
    line. -/
def StopsForm (after : List Char) : Prop := ∀ c ∈ after.head?, c = ' ' ∨ c = ')' ∨ c = '\n'

/-- Something, without any marks. -/
structure IsBare (w : List Char) : Prop where
  ne_nil : w ≠ []
  chars : ∀ c ∈ w, isFormMark c = false

/-- A bare word, or a string with its marks. -/
inductive IsFormWord : List Char → Prop where
  | bare {w : List Char} (h : IsBare w) : IsFormWord w
  | string {t : List Char} (ht : Text.Quotable t) : IsFormWord ('「' :: (t ++ ['」']))

variable {w v after after' : List Char}

theorem isBare_of_all (hne : w ≠ []) (h : (w.all fun c => !isFormMark c) = true) : IsBare w :=
  ⟨hne, fun c hc => by simpa using List.all_eq_true.1 h c hc⟩

theorem IsBare.append_ne (hw : IsBare w) {c : Char} (hc : isFormMark c = true)
    (after rest : List Char) : w ++ after ≠ c :: rest := by
  obtain ⟨d, w, rfl⟩ := List.exists_cons_of_ne_nil hw.ne_nil
  rintro heq
  obtain ⟨rfl, -⟩ := List.cons.inj heq
  rw [hw.chars d List.mem_cons_self] at hc
  cases hc

theorem IsFormWord.ne_nil (hw : IsFormWord w) : w ≠ [] := by
  cases hw with
  | bare h => exact h.ne_nil
  | string => exact List.cons_ne_nil _ _

theorem IsFormWord.append_ne (hw : IsFormWord w) (after rest : List Char) :
    w ++ after ≠ '(' :: rest := by
  cases hw with
  | bare h => exact h.append_ne rfl after rest
  | string =>
    rintro heq
    exact absurd (List.cons.inj heq).1 (by decide)

theorem takeWhile_bare (hw : IsBare w) (hafter : StopsForm after) :
    (w ++ after).takeWhile (!isFormMark ·) = w := by
  refine Scanner.takeWhile_append_of_head (fun c hc => by simp [hw.chars c hc]) fun c hc => ?_
  rcases hafter c hc with rfl | rfl | rfl <;> rfl

theorem bare_unique (hw : IsBare w) (hv : IsBare v) (hafter : StopsForm after)
    (hafter' : StopsForm after') (h : w ++ after = v ++ after') : w = v ∧ after = after' := by
  have hwv : w = v := by rw [← takeWhile_bare hw hafter, h, takeWhile_bare hv hafter']
  subst hwv
  exact ⟨rfl, List.append_cancel_left h⟩

/-- A string ends where its marks balance. -/
theorem string_unique {t u : List Char} (ht : Text.Quotable t) (hu : Text.Quotable u)
    (h : t ++ '」' :: after = u ++ '」' :: after') : t = u ∧ after = after' := by
  have hlength : ∀ {t : List Char}, Text.Quotable t → ∀ after : List Char,
      Scanner.closing? 1 (t ++ '」' :: after) = some (t.length + 1) := fun ht after =>
    Scanner.closing?_eq_some.2 ⟨_, after, rfl, rfl, Text.settles_zero.2 ht⟩
  have hsame := (hlength ht after).symm.trans (h ▸ hlength hu after')
  obtain ⟨rfl, htail⟩ := List.append_inj h (Nat.succ.inj (Option.some.inj hsame))
  exact ⟨rfl, (List.cons.inj htail).2⟩

theorem formWord_unique (hw : IsFormWord w) (hv : IsFormWord v) (hafter : StopsForm after)
    (hafter' : StopsForm after') (h : w ++ after = v ++ after') : w = v ∧ after = after' := by
  cases hw with
  | bare hw =>
    cases hv with
    | bare hv => exact bare_unique hw hv hafter hafter' h
    | string hu => exact absurd h (hw.append_ne rfl _ _)
  | string ht =>
    cases hv with
    | bare hv => exact absurd h.symm (hv.append_ne rfl _ _)
    | string hu =>
      simp only [List.cons_append, List.append_assoc, List.nil_append, List.cons.injEq,
        true_and] at h
      obtain ⟨rfl, rfl⟩ := string_unique ht hu h
      exact ⟨rfl, rfl⟩

/-! ## Reading a form -/

mutual

/-- All words can be told from what is around them, and those in front are bare. -/
def Form.Legible : Form → Prop
  | .word text => IsFormWord text.toList
  | .list head parts => IsBare head.toList ∧ parts.Legible

def Forms.Legible : Forms → Prop
  | .nil => True
  | .cons first rest => first.Legible ∧ rest.Legible

end

theorem Form.written_ne_nil {f : Form} (hf : f.Legible) : f.written ≠ [] := by
  cases f with
  | word text => exact IsFormWord.ne_nil hf
  | list head parts => exact List.cons_ne_nil _ _

/-- Forms in a list stop the one before them. -/
theorem Forms.stops_written (fs : Forms) (after : List Char) :
    StopsForm (fs.written ++ ')' :: after) := by
  cases fs with
  | nil =>
    rintro c ⟨⟩
    exact .inr (.inl rfl)
  | cons first rest =>
    rintro c ⟨⟩
    exact .inl rfl

mutual

/-- **A form is read in one way only**, whatever it is followed by. -/
theorem form_unique {f g : Form} {after after' : List Char} (hf : f.Legible) (hg : g.Legible)
    (hafter : StopsForm after) (hafter' : StopsForm after')
    (h : f.written ++ after = g.written ++ after') : f = g ∧ after = after' := by
  match f, g with
  | .word text, .word text' =>
    obtain ⟨htext, rfl⟩ := formWord_unique hf hg hafter hafter' h
    exact ⟨by rw [String.toList_inj.1 htext], rfl⟩
  | .word text, .list head parts => exact absurd h (IsFormWord.append_ne hf _ _)
  | .list head parts, .word text => exact absurd h.symm (IsFormWord.append_ne hg _ _)
  | .list head parts, .list head' parts' =>
    simp only [Form.written, List.cons_append, List.append_assoc, List.nil_append] at h
    obtain ⟨hhead, hparts⟩ := bare_unique hf.1 hg.1 (parts.stops_written _)
      (parts'.stops_written _) (List.cons.inj h).2
    obtain ⟨rfl, rfl⟩ := forms_unique hf.2 hg.2 hparts
    exact ⟨by rw [String.toList_inj.1 hhead], rfl⟩

theorem forms_unique {fs gs : Forms} {after after' : List Char} (hf : fs.Legible)
    (hg : gs.Legible) (h : fs.written ++ ')' :: after = gs.written ++ ')' :: after') :
    fs = gs ∧ after = after' := by
  match fs, gs with
  | .nil, .nil => exact ⟨rfl, (List.cons.inj h).2⟩
  | .nil, .cons first rest => exact absurd (List.cons.inj h).1 (by decide)
  | .cons first rest, .nil => exact absurd (List.cons.inj h).1 (by decide)
  | .cons first rest, .cons first' rest' =>
    simp only [Forms.written, List.cons_append, List.append_assoc] at h
    obtain ⟨rfl, hrest⟩ := form_unique hf.1 hg.1 (rest.stops_written _) (rest'.stops_written _)
      (List.cons.inj h).2
    obtain ⟨rfl, rfl⟩ := forms_unique hf.2 hg.2 hrest
    exact ⟨rfl, rfl⟩

end

/-! ## Forms on lines -/

theorem stopsForm_flatMap_newline (ws : List (List Char)) :
    StopsForm (ws.flatMap ('\n' :: ·)) := by
  cases ws with
  | nil =>
    rintro c ⟨⟩
  | cons w ws =>
    rintro c ⟨⟩
    exact .inr (.inr rfl)

theorem flatMap_written_inj {fs gs : List Form} (hf : ∀ f ∈ fs, f.Legible)
    (hg : ∀ g ∈ gs, g.Legible)
    (h : (fs.map Form.written).flatMap ('\n' :: ·) = (gs.map Form.written).flatMap ('\n' :: ·)) :
    fs = gs := by
  induction fs generalizing gs with
  | nil =>
    cases gs with
    | nil => rfl
    | cons g gs => cases h
  | cons f fs ih =>
    cases gs with
    | nil => cases h
    | cons g gs =>
      obtain ⟨hfirst, hfs⟩ := List.forall_mem_cons.1 hf
      obtain ⟨hfirst', hgs⟩ := List.forall_mem_cons.1 hg
      simp only [List.map_cons, List.flatMap_cons, List.cons_append, List.cons.injEq,
        true_and] at h
      obtain ⟨rfl, hrest⟩ := form_unique hfirst hfirst' (stopsForm_flatMap_newline _)
        (stopsForm_flatMap_newline _) h
      rw [ih hfs hgs hrest]

/-- Forms on lines of their own are read in one way only. -/
theorem separatedBy_written_inj {fs gs : List Form} (hf : ∀ f ∈ fs, f.Legible)
    (hg : ∀ g ∈ gs, g.Legible)
    (h : separatedBy '\n' (fs.map Form.written) = separatedBy '\n' (gs.map Form.written)) :
    fs = gs := by
  have hne : ∀ (f : Form) (fs : List Form), f.Legible →
      separatedBy '\n' ((f :: fs).map Form.written) ≠ [] := by
    intro f fs hf hnil
    rw [List.map_cons, separatedBy_cons] at hnil
    exact f.written_ne_nil hf (List.append_eq_nil_iff.1 hnil).1
  cases fs with
  | nil =>
    cases gs with
    | nil => rfl
    | cons g gs => exact absurd h.symm (hne g gs (hg g List.mem_cons_self))
  | cons f fs =>
    cases gs with
    | nil => exact absurd h (hne f fs (hf f List.mem_cons_self))
    | cons g gs =>
      -- a newline in front of both makes all of them alike
      refine flatMap_written_inj hf hg ?_
      rw [List.map_cons, List.map_cons, List.flatMap_cons, List.flatMap_cons, List.cons_append,
        List.cons_append, ← separatedBy_cons, ← separatedBy_cons]
      exact congrArg ('\n' :: ·) h

end StageScript
