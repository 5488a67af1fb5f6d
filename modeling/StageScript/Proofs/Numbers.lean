import StageScript.Proofs.Lexeme

set_option autoImplicit false

/-! # The characters of a number

A number takes all the digits that come next, and a point with all the digits behind it if a digit
stands there: `numberLength_append_iff` says which characters these are and what can follow them.
Main statement: `number_of_shape`. -/

namespace StageScript.Scanner

/-! ## Runs and fractions -/

theorem length_takeWhile_append_iff {p : Char → Bool} {cs after : List Char} :
    ((cs ++ after).takeWhile p).length = cs.length ↔
      (∀ c ∈ cs, p c = true) ∧ ∀ c ∈ after.head?, p c = false := by
  constructor
  · intro h
    have htake : (cs ++ after).takeWhile p = cs := by
      have := List.prefix_iff_eq_take.1 (List.takeWhile_prefix (l := cs ++ after) p)
      rw [this, h, List.take_left]
    have hcs : ∀ c ∈ cs, p c = true := fun c hc => List.mem_takeWhile_imp (htake.symm ▸ hc)
    refine ⟨hcs, fun c hc => ?_⟩
    obtain ⟨more, rfl⟩ : ∃ more, after = c :: more := by
      cases after with
      | nil => cases hc
      | cons d more => exact ⟨more, by rw [← Option.some.inj hc]⟩
    rw [List.takeWhile_append_of_pos hcs, List.length_append] at h
    by_contra hp
    rw [List.takeWhile_cons_of_pos (by simpa using hp), List.length_cons] at h
    omega
  · rintro ⟨hcs, hafter⟩
    rw [takeWhile_append_of_head hcs hafter]

/-- A point and a digit come next. -/
def StartsFraction (cs : List Char) : Prop :=
  ∃ point digit more, cs = point :: digit :: more ∧ Text.isPoint point = true ∧
    Text.isDigit digit = true

theorem fractionLength_eq_zero {cs : List Char} : fractionLength cs = 0 ↔ ¬StartsFraction cs := by
  match cs with
  | [] => simp [fractionLength, StartsFraction]
  | [_] => simp [fractionLength, StartsFraction]
  | point :: digit :: more =>
    rw [fractionLength]
    split
    · next h =>
      have h' : Text.isPoint point = true ∧ Text.isDigit digit = true := by simpa using h
      simp only [StartsFraction, not_exists, not_and]
      constructor
      · omega
      · intro hnone
        exact absurd h'.2 (hnone point digit more rfl h'.1)
    · next h =>
      simp only [true_iff]
      rintro ⟨_, _, _, ⟨⟩, hpoint, hdigit⟩
      exact h (by simp [hpoint, hdigit])

/-! ## How far a number goes -/

/-- Digits, and a point with digits behind it if there is one. -/
inductive Digits : List Char → Prop where
  | whole {ds : List Char} (hds : ∀ d ∈ ds, Text.isDigit d = true) : Digits ds
  | fraction {ds fs : List Char} {point : Char} (hds : ∀ d ∈ ds, Text.isDigit d = true)
    (hpoint : Text.isPoint point = true) (hne : fs ≠ [])
    (hfs : ∀ d ∈ fs, Text.isDigit d = true) : Digits (ds ++ point :: fs)

theorem numberLength_digits {ds : List Char} (hds : ∀ d ∈ ds, Text.isDigit d = true)
    (rest : List Char) : numberLength (ds ++ rest) = ds.length + numberLength rest := by
  rw [numberLength, numberLength, List.takeWhile_append_of_pos hds,
    List.dropWhile_append_of_pos hds, List.length_append, Nat.add_assoc]

theorem numberLength_of_not_digit {c : Char} (hc : Text.isDigit c = false) (rest : List Char) :
    numberLength (c :: rest) = fractionLength (c :: rest) := by
  simp [numberLength, hc]

theorem numberLength_eq_zero {cs : List Char} :
    numberLength cs = 0 ↔ (∀ c ∈ cs.head?, Text.isDigit c = false) ∧ ¬StartsFraction cs := by
  cases cs with
  | nil => simp [numberLength, fractionLength, StartsFraction]
  | cons c cs =>
    by_cases hc : Text.isDigit c = true
    · simp [numberLength, hc]
    · have hc' : Text.isDigit c = false := by simpa using hc
      rw [numberLength_of_not_digit hc', fractionLength_eq_zero]
      simp [hc']

/-- A fraction is a point and all the digits behind it. -/
theorem fractionLength_append_iff {point : Char} {fs after : List Char} :
    fractionLength (point :: (fs ++ after)) = fs.length + 1 ↔
      Text.isPoint point = true ∧ fs ≠ [] ∧ (∀ d ∈ fs, Text.isDigit d = true) ∧
        ∀ c ∈ after.head?, Text.isDigit c = false := by
  cases fs with
  | nil =>
    have hne : fractionLength (point :: after) ≠ 1 := by
      cases after with
      | nil => simp [fractionLength]
      | cons digit more =>
        rw [fractionLength]
        split <;> omega
    simpa using hne
  | cons digit fs =>
    rw [List.cons_append, fractionLength]
    split
    · next h =>
      have h' : Text.isPoint point = true ∧ Text.isDigit digit = true := by simpa using h
      have hlength : 2 + ((fs ++ after).takeWhile Text.isDigit).length = (digit :: fs).length + 1 ↔
          ((fs ++ after).takeWhile Text.isDigit).length = fs.length := by
        rw [List.length_cons]
        omega
      rw [hlength, length_takeWhile_append_iff]
      simp [h'.1, h'.2]
    · next h =>
      have h' : Text.isPoint point = true → Text.isDigit digit = false := by simpa using h
      simp only [List.length_cons]
      constructor
      · omega
      · rintro ⟨hpoint, -, hdigits, -⟩
        have := hdigits digit List.mem_cons_self
        rw [h' hpoint] at this
        cases this

/-- A number takes all digits and the fraction that come next. -/
theorem numberLength_append_iff {cs after : List Char} :
    numberLength (cs ++ after) = cs.length ↔ Digits cs ∧
      (∀ c ∈ after.head?, Text.isDigit c = false) ∧
      ((∀ c ∈ cs, Text.isDigit c = true) → ¬StartsFraction after) := by
  constructor
  · intro h
    by_cases hcs : ∀ c ∈ cs, Text.isDigit c = true
    · rw [numberLength_digits hcs, Nat.add_eq_left, numberLength_eq_zero] at h
      exact ⟨.whole hcs, h.1, fun _ => h.2⟩
    · -- the first character that is no digit is the point
      have hsplit : cs.takeWhile Text.isDigit ++ cs.dropWhile Text.isDigit = cs :=
        List.takeWhile_append_dropWhile
      have hds : ∀ d ∈ cs.takeWhile Text.isDigit, Text.isDigit d = true :=
        fun _ => List.mem_takeWhile_imp
      obtain ⟨point, fs, hrest⟩ : ∃ point fs, cs.dropWhile Text.isDigit = point :: fs := by
        refine List.exists_cons_of_ne_nil fun hnil => hcs ?_
        rw [hnil, List.append_nil] at hsplit
        exact hsplit ▸ hds
      have hpoint : Text.isDigit point = false := by
        have := List.head?_dropWhile_not Text.isDigit cs
        rw [hrest] at this
        simpa using this
      rw [hrest] at hsplit
      rw [← hsplit, List.append_assoc, numberLength_digits hds, List.length_append,
        List.length_cons, List.cons_append, numberLength_of_not_digit hpoint, Nat.add_right_inj,
        fractionLength_append_iff] at h
      obtain ⟨hpoint, hne, hfs, hafter⟩ := h
      exact ⟨hsplit ▸ .fraction hds hpoint hne hfs, hafter, fun hall => absurd hall hcs⟩
  · rintro ⟨hcs, hafter, hfraction⟩
    cases hcs with
    | whole hds =>
      rw [numberLength_digits hds, Nat.add_eq_left, numberLength_eq_zero]
      exact ⟨hafter, hfraction hds⟩
    | @fraction ds fs point hds hpoint hne hfs =>
      have hdigit : Text.isDigit point = false := by
        obtain rfl | rfl : point = '.' ∨ point = '．' := by simpa [Text.isPoint] using hpoint
        · decide
        · decide
      rw [List.append_assoc, numberLength_digits hds, List.length_append, List.length_cons,
        List.cons_append, numberLength_of_not_digit hdigit, Nat.add_right_inj,
        fractionLength_append_iff]
      exact ⟨hpoint, hne, hfs, hafter⟩

/-- One or more digits, and a point with one or more digits behind it if there is one. -/
inductive IsNumber : List Char → Prop where
  | whole {ds : List Char} (hne : ds ≠ []) (hds : ∀ d ∈ ds, Text.isDigit d = true) : IsNumber ds
  | fraction {ds fs : List Char} {point : Char} (hne : ds ≠ [])
    (hds : ∀ d ∈ ds, Text.isDigit d = true) (hpoint : Text.isPoint point = true) (hne' : fs ≠ [])
    (hfs : ∀ d ∈ fs, Text.isDigit d = true) : IsNumber (ds ++ point :: fs)

theorem IsNumber.digit_or_point {w : List Char} (h : IsNumber w) :
    ∀ c ∈ w, Text.isDigit c = true ∨ Text.isPoint c = true := by
  intro c hc
  cases h with
  | whole _ hds => exact .inl (hds c hc)
  | fraction _ hds hpoint _ hfs =>
    rcases List.mem_append.1 hc with hc | hc
    · exact .inl (hds c hc)
    rcases List.mem_cons.1 hc with rfl | hc
    · exact .inr hpoint
    · exact .inl (hfs c hc)

theorem Digits.isNumber {c : Char} {cs : List Char} (h : Digits cs) (hc : Text.isDigit c = true) :
    IsNumber (c :: cs) := by
  cases h with
  | whole hds => exact .whole (List.cons_ne_nil _ _) (List.forall_mem_cons.2 ⟨hc, hds⟩)
  | @fraction ds fs point hds hpoint hne hfs =>
    rw [← List.cons_append]
    exact .fraction (List.cons_ne_nil _ _) (List.forall_mem_cons.2 ⟨hc, hds⟩) hpoint hne hfs

variable {c : Char} {cs after : List Char}

theorem number_of_shape (h : shape c (cs ++ after) = (.token .number, cs.length)) :
    IsNumber (c :: cs) ∧ (∀ d ∈ after.head?, Text.isDigit d = false) ∧
      ((∀ d ∈ c :: cs, Text.isDigit d = true) → ¬StartsFraction after) := by
  generalize hn : cs.length = n at h
  cases starts_of_shape h with
  | mark hc => simp [marks] at hc
  | sign hc => cases hc
  | signEqual hc => cases hc
  | number hc =>
    obtain ⟨hcs, hafter, hfraction⟩ := numberLength_append_iff.1 hn.symm
    exact ⟨hcs.isNumber hc, hafter, fun hall => hfraction (List.forall_mem_cons.1 hall).2⟩
  | word _ _ hkind => exact absurd (hkind ▸ ofWord_mem _) (by decide)

theorem lexeme_number {w : List Char} (h : Lexeme .number w) : IsNumber w := by
  cases w with
  | nil => exact h.elim
  | cons c cs => exact (number_of_shape (h.2 [] separated_nil)).1

end StageScript.Scanner
