import Mathlib.Data.List.TakeWhile
import StageScript.Proofs.Stages

set_option autoImplicit false

/-! # What coercions look past

A text is taken for a number or a truth value without the blanks at its ends, a number in either
width and a truth value in either case. Trimming commutes with both foldings, since neither of them
makes or unmakes a blank (`Text.trimChars_map`), so texts that differ in nothing else are taken
alike: they have the same value, or each of them fails under its own name. Main statement:
`Value.coercions`. -/

namespace StageScript

/-! ## Characters -/

namespace Text

/-- The characters of numbers with their full-width forms. -/
def numberForms : List (Char × Char) :=
  [('0', '０'), ('1', '１'), ('2', '２'), ('3', '３'), ('4', '４'), ('5', '５'), ('6', '６'), ('7', '７'),
    ('8', '８'), ('9', '９'), ('.', '．'), ('+', '＋'), ('-', '－')]

/-- The same character, or a digit, point or sign and its form in the other width. -/
def WidthVariant (c d : Char) : Prop := d = c ∨ (c, d) ∈ numberForms ∨ (d, c) ∈ numberForms

/-- The same character, or an ASCII letter and its form in the other case. -/
def CaseVariant (c d : Char) : Prop := d = c ∨ d = c.toLower ∨ d = c.toUpper

instance (c d : Char) : Decidable (WidthVariant c d) :=
  inferInstanceAs (Decidable (d = c ∨ (c, d) ∈ numberForms ∨ (d, c) ∈ numberForms))

instance (c d : Char) : Decidable (CaseVariant c d) :=
  inferInstanceAs (Decidable (d = c ∨ d = c.toLower ∨ d = c.toUpper))

/-- What holds of all characters of a range holds of a character in it. -/
theorem char_cases {P : Char → Prop} (first count : Nat)
    (h : ∀ k < count, P (Char.ofNat (first + k))) {c : Char} (hle : first ≤ c.toNat)
    (hlt : c.toNat < first + count) : P c := by
  have hc := h (c.toNat - first) (by omega)
  rwa [Nat.add_sub_cancel' hle, Char.ofNat_toNat] at hc

theorem halfWidth_cases (c : Char) : halfWidth c = c ∨ (halfWidth c, c) ∈ numberForms := by
  by_cases hdigit : '０' ≤ c ∧ c ≤ '９'
  · exact .inr (char_cases (P := fun c => (halfWidth c, c) ∈ numberForms) 0xff10 10 (by decide)
      hdigit.1 (Nat.lt_succ_of_le hdigit.2))
  · rw [halfWidth, if_neg (by simpa using hdigit)]
    split
    · next h =>
      obtain rfl : c = '．' := eq_of_beq h
      exact .inr (by decide)
    split
    · next h =>
      obtain rfl : c = '－' := eq_of_beq h
      exact .inr (by decide)
    split
    · next h =>
      obtain rfl : c = '＋' := eq_of_beq h
      exact .inr (by decide)
    · exact .inl rfl

theorem isSpace_halfWidth (c : Char) : isSpace (halfWidth c) = isSpace c := by
  have hforms : ∀ p ∈ numberForms, isSpace p.1 = isSpace p.2 := by decide
  rcases halfWidth_cases c with h | h
  · rw [h]
  · exact hforms (halfWidth c, c) h

theorem isSpace_toLower (c : Char) : isSpace c.toLower = isSpace c := by
  by_cases hupper : 'A' ≤ c ∧ c ≤ 'Z'
  · exact char_cases (P := fun c => isSpace c.toLower = isSpace c) 0x41 26 (by decide) hupper.1
      (Nat.lt_succ_of_le hupper.2)
  · rw [show c.toLower = c from dif_neg hupper]

theorem WidthVariant.halfWidth_eq {c d : Char} (h : WidthVariant c d) :
    halfWidth d = halfWidth c := by
  have hforms : ∀ p ∈ numberForms, halfWidth p.1 = halfWidth p.2 := by decide
  rcases h with rfl | h | h
  · rfl
  · exact (hforms (c, d) h).symm
  · exact hforms (d, c) h

theorem CaseVariant.toLower_eq {c d : Char} (h : CaseVariant c d) : d.toLower = c.toLower := by
  rcases h with rfl | rfl | rfl
  · rfl
  · by_cases hupper : 'A' ≤ c ∧ c ≤ 'Z'
    · exact char_cases (P := fun c => c.toLower.toLower = c.toLower) 0x41 26 (by decide) hupper.1
        (Nat.lt_succ_of_le hupper.2)
    · rw [show c.toLower = c from dif_neg hupper, show c.toLower = c from dif_neg hupper]
  · by_cases hlower : 'a' ≤ c ∧ c ≤ 'z'
    · exact char_cases (P := fun c => c.toUpper.toLower = c.toLower) 0x61 26 (by decide) hlower.1
        (Nat.lt_succ_of_le hlower.2)
    · rw [show c.toUpper = c from dif_neg hlower]

/-! ## Trimming -/

section Trimming

variable {cs ds : List Char} {f : Char → Char}

theorem dropWhile_isSpace_map (hf : ∀ c, isSpace (f c) = isSpace c) (cs : List Char) :
    (cs.map f).dropWhile isSpace = (cs.dropWhile isSpace).map f := by
  rw [List.dropWhile_map, show isSpace ∘ f = isSpace from funext hf]

/-- A folding that makes no blanks and unmakes none can be done before or after trimming. -/
theorem trimChars_map (hf : ∀ c, isSpace (f c) = isSpace c) (cs : List Char) :
    trimChars (cs.map f) = (trimChars cs).map f := by
  rw [trimChars, trimChars, dropWhile_isSpace_map hf, ← List.map_reverse,
    dropWhile_isSpace_map hf, List.map_reverse]

/-- Where two texts fold to the same characters, so do what is left of them without the blanks. -/
theorem map_trimChars_eq (hf : ∀ c, isSpace (f c) = isSpace c)
    (h : List.Forall₂ (fun c d => f d = f c) cs ds) :
    (trimChars ds).map f = (trimChars cs).map f := by
  have hmap : ds.map f = cs.map f := by
    induction h with
    | nil => rfl
    | cons hc _ ih => rw [List.map_cons, List.map_cons, hc, ih]
  rw [← trimChars_map hf, ← trimChars_map hf, hmap]

/-- A text without a blank at either end is left alone. -/
theorem trimChars_eq_self (hfirst : ∀ c ∈ cs.head?, isSpace c = false)
    (hlast : ∀ c ∈ cs.getLast?, isSpace c = false) : trimChars cs = cs := by
  have hdrop : ∀ {ws : List Char}, (∀ c ∈ ws.head?, isSpace c = false) →
      ws.dropWhile isSpace = ws := by
    intro ws hws
    rw [List.dropWhile_eq_self_iff]
    intro hl
    simpa using hws _ (List.head?_eq_getElem? ▸ List.getElem?_eq_getElem hl)
  rw [trimChars, hdrop hfirst, hdrop (by rwa [List.head?_reverse]), List.reverse_reverse]

/-- Blanks around a text are taken off with those that it has at its ends. -/
theorem trimChars_padded {before after : List Char} (hbefore : ∀ c ∈ before, isSpace c = true)
    (hafter : ∀ c ∈ after, isSpace c = true) :
    trimChars (before ++ cs ++ after) = trimChars cs := by
  have hafter' : ∀ c ∈ after.reverse, isSpace c = true := by simpa using hafter
  rw [trimChars, trimChars, List.append_assoc, List.dropWhile_append_of_pos hbefore,
    List.dropWhile_append]
  split
  · next hblank =>
    -- nothing but blanks, and nothing is left
    rw [List.dropWhile_eq_nil_iff.2 hafter, List.isEmpty_iff.1 hblank]
  · rw [List.reverse_append, List.dropWhile_append_of_pos hafter']

end Trimming

end Text

/-! ## Texts that are taken alike -/

namespace Value

/-- Two conversions come to the same value, or each of them fails with an error of its own. -/
inductive TakenAlike {α : Type} (e e' : CoercionError) :
    Except CoercionError α → Except CoercionError α → Prop where
  | ok (x : α) : TakenAlike e e' (.ok x) (.ok x)
  | error : TakenAlike e e' (.error e) (.error e')

variable {s t : String}

theorem asNumber_alike (h : readNumber? t = readNumber? s) :
    TakenAlike (.notANumber s) (.notANumber t) (text s).asNumber (text t).asNumber := by
  rw [asNumber_text, asNumber_text, h]
  cases readNumber? s with
  | none => exact .error
  | some x => exact .ok x

theorem asBool_alike (h : readTruth? t = readTruth? s) :
    TakenAlike (.notABoolean s) (.notABoolean t) (text s).asBool (text t).asBool := by
  rw [asBool, asBool, h]
  cases readTruth? s with
  | none => exact .error
  | some b => exact .ok b

variable {p q : String} (hp : ∀ c ∈ p.toList, Text.isSpace c = true)
  (hq : ∀ c ∈ q.toList, Text.isSpace c = true)

include hp hq

theorem trim_padded (s : String) : Text.trim (p ++ s ++ q) = Text.trim s := by
  rw [Text.trim, String.toList_append, String.toList_append, Text.trimChars_padded hp hq, Text.trim]

theorem readNumber?_padded (h : List.Forall₂ Text.WidthVariant s.toList t.toList) :
    readNumber? (p ++ t ++ q) = readNumber? s := by
  have hfold : Text.foldWidth (Text.trim t) = Text.foldWidth (Text.trim s) := by
    rw [← String.toList_inj, Text.toList_foldWidth, Text.toList_foldWidth, Text.toList_trim,
      Text.toList_trim]
    exact Text.map_trimChars_eq Text.isSpace_halfWidth
      (h.imp fun _ _ => Text.WidthVariant.halfWidth_eq)
  rw [readNumber?, trim_padded hp hq, hfold, readNumber?]

theorem readTruth?_padded (h : List.Forall₂ Text.CaseVariant s.toList t.toList) :
    readTruth? (p ++ t ++ q) = readTruth? s := by
  have hfold : (Text.trim t).toList.map Char.toLower = (Text.trim s).toList.map Char.toLower := by
    rw [Text.toList_trim, Text.toList_trim]
    exact Text.map_trimChars_eq Text.isSpace_toLower (h.imp fun _ _ => Text.CaseVariant.toLower_eq)
  rw [readTruth?, trim_padded hp hq, hfold, readTruth?]

end Value

/-! ## Conversions in a run -/

/-- The performance converts a value on a line: whatever the stage, it comes to the result `total`
    and does nothing but report the failure of the conversion, if it fails. -/
structure Performance.Converts {α : Type} (p : Performance α) (line : Nat)
    (conversion : Except CoercionError α) (total : α) : Prop where
  on : ∀ {σ : Type} (stage : Stage σ) (st : σ), p.on stage st = (total,
    match conversion with
    | .ok _ => st
    | .error e => stage.act (.report (.coercion e line)) st)
  seen : ∀ {σ : Type} (stage : Stage σ) (st : σ), p.seenOn stage st =
    match conversion with
    | .ok _ => []
    | .error e => [.act (.report (.coercion e line))]

namespace Value

theorem converts_coerceNumber (v : Value) (line : Nat) :
    (v.coerceNumber line).Converts line v.asNumber v.toNumber := by
  rw [coerceNumber, toNumber]
  cases v.asNumber with
  | ok x => exact ⟨fun _ _ => rfl, fun _ _ => rfl⟩
  | error e => exact ⟨fun _ _ => rfl, fun _ _ => rfl⟩

theorem converts_coerceBool (v : Value) (line : Nat) :
    (v.coerceBool line).Converts line v.asBool v.toBool := by
  rw [coerceBool, toBool]
  cases v.asBool with
  | ok b => exact ⟨fun _ _ => rfl, fun _ _ => rfl⟩
  | error e => exact ⟨fun _ _ => rfl, fun _ _ => rfl⟩

/-- **Coercions look past width, padding and case.** With blanks around it and digits, points and
    signs in either width a text is taken for the same number, and with blanks around it and letters
    in either case for the same truth value, or fails with the whole text. In a run a failure is
    reported once, and the value is what it counts for. -/
theorem coercions {p q : String} (hp : ∀ c ∈ p.toList, Text.isSpace c = true)
    (hq : ∀ c ∈ q.toList, Text.isSpace c = true) (s : String) :
    (∀ t : String, List.Forall₂ Text.WidthVariant s.toList t.toList →
      TakenAlike (.notANumber s) (.notANumber (p ++ t ++ q))
        (text s).asNumber (text (p ++ t ++ q)).asNumber) ∧
    (∀ t : String, List.Forall₂ Text.CaseVariant s.toList t.toList →
      TakenAlike (.notABoolean s) (.notABoolean (p ++ t ++ q))
        (text s).asBool (text (p ++ t ++ q)).asBool) ∧
    ∀ (v : Value) (line : Nat),
      (v.coerceNumber line).Converts line v.asNumber v.toNumber ∧
        (v.coerceBool line).Converts line v.asBool v.toBool :=
  ⟨fun _ ht => asNumber_alike (readNumber?_padded hp hq ht),
    fun _ ht => asBool_alike (readTruth?_padded hp hq ht),
    fun v line => ⟨v.converts_coerceNumber line, v.converts_coerceBool line⟩⟩

/-- Blanks of all kinds around a number in both widths and around a word in both cases. -/
theorem coercions_padded :
    (∀ c ∈ "\u3000\n".toList, Text.isSpace c = true) ∧
      (∀ c ∈ "\t\u0085".toList, Text.isSpace c = true) ∧
      List.Forall₂ Text.WidthVariant "-１.5".toList "－1．5".toList ∧
      (text "-１.5").asNumber.isOk = true ∧
      TakenAlike (.notANumber "-１.5") (.notANumber ("\u3000\n" ++ "－1．5" ++ "\t\u0085"))
        (text "-１.5").asNumber (text ("\u3000\n" ++ "－1．5" ++ "\t\u0085")).asNumber ∧
      List.Forall₂ Text.CaseVariant "true".toList "tRUe".toList ∧
      (text "true").asBool.isOk = true ∧
      TakenAlike (.notABoolean "true") (.notABoolean ("\u3000\n" ++ "tRUe" ++ "\t\u0085"))
        (text "true").asBool (text ("\u3000\n" ++ "tRUe" ++ "\t\u0085")).asBool := by
  have hbefore : ∀ c ∈ "\u3000\n".toList, Text.isSpace c = true :=
    List.all_eq_true.1 (by decide)
  have hafter : ∀ c ∈ "\t\u0085".toList, Text.isSpace c = true :=
    List.all_eq_true.1 (by decide)
  have hwidth : List.Forall₂ Text.WidthVariant "-１.5".toList "－1．5".toList := by decide +kernel
  have hcase : List.Forall₂ Text.CaseVariant "true".toList "tRUe".toList := by decide +kernel
  exact ⟨hbefore, hafter, hwidth, by decide +kernel,
    (coercions hbefore hafter "-１.5").1 _ hwidth, hcase, by decide +kernel,
    (coercions hbefore hafter "true").2.1 _ hcase⟩

end Value

end StageScript
