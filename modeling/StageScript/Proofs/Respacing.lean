import Mathlib.Data.List.Basic
import StageScript.Proofs.Tiling

set_option autoImplicit false

/-! # Spacing tokens anew

What a token is depends on its own characters only, so that the tokens of a script can be taken out
of it and written one after the other, with any blanks between them: `Stream.items_ofString_spaced`
follows the scanner through such a text. Main statement: `Stream.respaced`. -/

namespace StageScript

open Scanner

/-! ## Readings -/

/-- The characters of an item of the script. -/
def Item.lexeme? (source : String) (x : Item) : Option String :=
  (x.span.slice? source.toList).map String.ofList

namespace Stream

/-- What the items of a script are, through the end of the file, each with its characters. -/
def readings (source : String) : List (Shape × Option String) :=
  (ofString source).toList.map fun x => (x.shape, x.lexeme? source)

/-- The characters of the items of a script. -/
def lexemes (source : String) : List String :=
  (ofString source).items.filterMap (Item.lexeme? source)

end Stream

/-- The whole text is scanned as one token of the kind. -/
def Text.IsToken (kind : TokenKind) (w : String) : Prop :=
  Stream.readings w = [(.token kind, some w), (.token .endOfFile, some "")]

/-- The words one after the other, with blanks between each two. -/
inductive Text.Spaced : List String → String → Prop where
  | nil : Spaced [] ""
  | singleton (w : String) : Spaced [w] w
  | cons {v w : String} {ws : List String} {gap rest : String} (hne : gap ≠ "")
    (hgap : ∀ c ∈ gap.toList, isGap c = true) (h : Spaced (w :: ws) rest) :
    Spaced (v :: w :: ws) (v ++ gap ++ rest)

namespace Stream

/-! ## Tokens and their characters -/

variable {source : String}

/-- The characters of the span are the text of the token. -/
theorem lexeme?_token (small : source.utf8ByteSize < 4294967296) {t : Token}
    (ht : .token t ∈ (ofString source).toList) :
    Item.lexeme? source (.token t) = some t.text := by
  obtain ⟨before, lexeme, after, heq, hfirst, hstop, htext⟩ := exists_bounds small ht
  rw [Item.lexeme?, heq, (Span.slice?_of_bounds after hfirst hstop).1, htext t rfl]
  rfl

/-- The tokens are read as their kinds and texts. -/
theorem readings_of_tokens (small : source.utf8ByteSize < 4294967296) {ts : List Token}
    (hts : (ofString source).items = ts.map .token) :
    readings source =
      ts.map (fun t => (.token t.kind, some t.text)) ++ [(.token .endOfFile, some "")] := by
  have hread : ∀ t ∈ ts ++ [(ofString source).finish],
      Item.lexeme? source (.token t) = some t.text := by
    intro t ht
    refine lexeme?_token small ?_
    rw [toList, hts, ← List.map_singleton, ← List.map_append]
    exact List.mem_map_of_mem ht
  have hall : (ofString source).toList = (ts ++ [(ofString source).finish]).map Item.token := by
    rw [toList, hts, List.map_append, List.map_singleton]
  rw [readings, hall, List.map_map]
  calc (ts ++ [(ofString source).finish]).map
        ((fun x : Item => (x.shape, x.lexeme? source)) ∘ Item.token)
      = (ts ++ [(ofString source).finish]).map (fun t => (.token t.kind, some t.text)) :=
        List.map_congr_left fun t ht => by simp [Item.shape, hread t ht]
    _ = _ := by simp [finish]

/-- Without an error all items are tokens. -/
theorem exists_tokens {xs : List Item} (h : ∀ e, Item.error e ∉ xs) :
    ∃ ts : List Token, xs = ts.map .token := by
  induction xs with
  | nil => exact ⟨[], rfl⟩
  | cons x xs ih =>
    obtain ⟨ts, rfl⟩ := ih fun e he => h e (List.mem_cons_of_mem _ he)
    cases x with
    | token t => exact ⟨t :: ts, rfl⟩
    | error e => exact absurd List.mem_cons_self (h e)

theorem lexemes_of_tokens (small : source.utf8ByteSize < 4294967296) {ts : List Token}
    (hts : (ofString source).items = ts.map .token) : lexemes source = ts.map Token.text := by
  rw [lexemes, hts, List.filterMap_map, List.filterMap_eq_map_iff_forall_eq_some]
  intro t ht
  refine lexeme?_token small ?_
  rw [toList, hts]
  exact List.mem_append_left _ (List.mem_map_of_mem ht)

/-! ## One word -/

/-- The words that are one token are the lexemes. -/
theorem isToken_iff {kind : TokenKind} {w : String} (small : w.utf8ByteSize < 4294967296) :
    Text.IsToken kind w ↔ Lexeme kind w.toList := by
  constructor
  · intro h
    obtain ⟨x, hx⟩ : ∃ x, (ofString w).items = [x] := by
      have hlength := congrArg List.length h
      simp only [readings, toList, List.length_map, List.length_append, List.length_cons,
        List.length_nil] at hlength
      exact List.length_eq_one_iff.1 (by omega)
    simp only [Text.IsToken, readings, toList, hx, List.singleton_append, List.map_cons,
      List.cons.injEq, Prod.mk.injEq] at h
    obtain ⟨⟨hshape, hlexeme⟩, -⟩ := h
    cases x with
    | error e => cases hshape
    | token t =>
      obtain rfl : t.kind = kind := Shape.token.inj hshape
      have hmem : Item.token t ∈ (ofString w).items := by simp [hx]
      rw [lexeme?_token small (List.mem_append_left _ hmem)] at hlexeme
      have hlex := lexeme_of_mem hmem
      rwa [Option.some.inj hlexeme] at hlex
  · intro h
    have hstream := streamAt_lexeme (p := Place.start) h separated_nil
    rw [List.append_nil] at hstream
    have hitems : (ofString w).items = [tokenAt Place.start kind w.toList].map Item.token :=
      congrArg Stream.items hstream
    rw [Text.IsToken, readings_of_tokens small hitems]
    simp [tokenAt]

/-! ## Many words -/

theorem shape_of_isGap {c : Char} (h : isGap c = true) (rest : List Char) :
    shape c rest = (.gap, 0) := by
  simp only [isGap, Bool.or_eq_true, beq_iff_eq] at h
  rcases h with ((rfl | rfl) | rfl) | rfl <;> rfl

theorem separates_of_isGap {c : Char} (h : isGap c = true) : separates c = true := by
  simp only [isGap, Bool.or_eq_true, beq_iff_eq] at h
  rcases h with ((rfl | rfl) | rfl) | rfl <;> decide +kernel

/-- Blanks only move the place. -/
theorem streamAt_gaps {gap : List Char} (h : ∀ c ∈ gap, isGap c = true) (p : Place)
    (rest : List Char) : streamAt p (gap ++ rest) = streamAt (p.afterAll gap) rest := by
  induction gap generalizing p with
  | nil => rfl
  | cons c gap ih =>
    obtain ⟨hc, hgap⟩ := List.forall_mem_cons.1 h
    rw [List.cons_append, streamAt_gap (shape_of_isGap hc _), ih hgap]
    rfl

/-- Lexemes with blanks between them are scanned one by one. -/
theorem items_streamAt_spaced {ws : List (TokenKind × String)} {text : String}
    (hws : ∀ w ∈ ws, Lexeme w.1 w.2.toList) (h : Text.Spaced (ws.map Prod.snd) text) (p : Place) :
    ∃ ts : List Token, (streamAt p text.toList).items = ts.map .token ∧
      ts.map (fun t => (t.kind, t.text)) = ws := by
  induction ws generalizing p text with
  | nil =>
    cases h
    exact ⟨[], rfl, rfl⟩
  | cons w ws ih =>
    obtain ⟨hw, hws⟩ := List.forall_mem_cons.1 hws
    cases ws with
    | nil =>
      cases h
      have hstream := streamAt_lexeme (p := p) hw separated_nil
      rw [List.append_nil] at hstream
      exact ⟨[tokenAt p w.1 w.2.toList], congrArg Stream.items hstream, by simp [tokenAt]⟩
    | cons w' ws =>
      cases h with
      | @cons _ _ _ gap rest hne hgap h =>
        have hseparated : Separated (gap.toList ++ rest.toList) := by
          obtain ⟨c, cs, hcs⟩ := List.exists_cons_of_ne_nil
            (fun hnil => hne (String.toList_inj.1 hnil) : gap.toList ≠ [])
          rw [hcs] at hgap ⊢
          exact separated_cons (separates_of_isGap (hgap c List.mem_cons_self)) _
        obtain ⟨ts, hitems, hts⟩ := ih hws h ((p.afterAll w.2.toList).afterAll gap.toList)
        refine ⟨tokenAt p w.1 w.2.toList :: ts, ?_, ?_⟩
        · rw [String.toList_append, String.toList_append, List.append_assoc,
            streamAt_lexeme hw hseparated, streamAt_gaps hgap]
          simp [hitems, Stream.prepend]
        · simp [tokenAt, hts]

/-- A text of spaced lexemes has these for its tokens. -/
theorem readings_spaced {ws : List (TokenKind × String)} {text : String}
    (small : text.utf8ByteSize < 4294967296) (hws : ∀ w ∈ ws, Lexeme w.1 w.2.toList)
    (h : Text.Spaced (ws.map Prod.snd) text) :
    readings text =
      ws.map (fun w => (.token w.1, some w.2)) ++ [(.token .endOfFile, some "")] := by
  obtain ⟨ts, hitems, rfl⟩ := items_streamAt_spaced hws h Place.start
  rw [readings_of_tokens small hitems, List.map_map]
  rfl

/-- No word is longer than the text. -/
theorem le_of_spaced {ws : List String} {text : String} (h : Text.Spaced ws text) {w : String}
    (hw : w ∈ ws) : w.utf8ByteSize ≤ text.utf8ByteSize := by
  induction h with
  | nil => cases hw
  | singleton v =>
    obtain rfl := List.mem_singleton.1 hw
    exact le_rfl
  | cons hne hgap h ih =>
    rw [String.utf8ByteSize_append, String.utf8ByteSize_append]
    rcases List.mem_cons.1 hw with rfl | hw
    · omega
    · have := ih hw
      omega

/-- A blank between each two words is enough. -/
theorem spaced_intercalate (ws : List String) : Text.Spaced ws (" ".intercalate ws) := by
  match ws with
  | [] => exact .nil
  | [w] => exact .singleton w
  | v :: w :: ws =>
    rw [String.intercalate_cons_cons]
    exact .cons (by decide +kernel) (List.all_eq_true.1 (by decide +kernel))
      (spaced_intercalate (w :: ws))

/-- **Tokens keep when they are spaced anew.** Words that are one token each are these tokens when
    they are joined by blanks; the characters of a token are such a word wherever it stands; and so
    a script without errors can be joined from the characters of its tokens. -/
theorem respaced :
    (∀ (ws : List (TokenKind × String)) (text : String), text.utf8ByteSize < 4294967296 →
      (∀ w ∈ ws, Text.IsToken w.1 w.2) → Text.Spaced (ws.map Prod.snd) text →
      readings text =
        ws.map (fun w => (.token w.1, some w.2)) ++ [(.token .endOfFile, some "")]) ∧
    (∀ source : String, source.utf8ByteSize < 4294967296 →
      ∀ t, .token t ∈ (ofString source).items →
        ∃ w, Item.lexeme? source (.token t) = some w ∧ Text.IsToken t.kind w) ∧
    ∀ source : String, source.utf8ByteSize < 4294967296 →
      (" ".intercalate (lexemes source)).utf8ByteSize < 4294967296 →
      (∀ e, .error e ∉ (ofString source).items) →
        readings (" ".intercalate (lexemes source)) = readings source := by
  refine ⟨fun ws text small hws h => ?_, fun source small t ht => ?_,
    fun source small hjoined hclean => ?_⟩
  · refine readings_spaced small (fun w hw => ?_) h
    have hle := le_of_spaced h (List.mem_map_of_mem hw)
    exact (isToken_iff (by omega)).1 (hws w hw)
  · have hmem : .token t ∈ (ofString source).toList := List.mem_append_left _ ht
    refine ⟨t.text, lexeme?_token small hmem, (isToken_iff ?_).2 (lexeme_of_mem ht)⟩
    -- a token is no longer than its script
    obtain ⟨before, lexeme, after, heq, -, -, htext⟩ := exists_bounds small hmem
    rw [← Text.byteCount_toList, heq, Text.byteCount_append, Text.byteCount_append] at small
    rw [htext t rfl, ← Text.byteCount_toList, String.toList_ofList]
    omega
  · obtain ⟨ts, hts⟩ := exists_tokens hclean
    have hlexemes : lexemes source = (ts.map fun t => (t.kind, t.text)).map Prod.snd := by
      rw [lexemes_of_tokens small hts, List.map_map]
      rfl
    have hspaced := spaced_intercalate (lexemes source)
    rw [hlexemes] at hspaced hjoined ⊢
    rw [readings_spaced hjoined ?_ hspaced, readings_of_tokens small hts, List.map_map]
    · rfl
    · intro w hw
      obtain ⟨t, ht, rfl⟩ := List.mem_map.1 hw
      refine lexeme_of_mem (?_ : Item.token t ∈ (ofString source).items)
      rw [hts]
      exact List.mem_map_of_mem ht

/-- A number, an equal sign, a string, a newline and a keyword, with other blanks each time. -/
theorem respaced_mixed :
    readings ("1.5" ++ " \t" ++ ("=＝" ++ "\u3000" ++ ("「a「 」」" ++ "\r" ++
        ("\n" ++ " " ++ "かつ")))) =
      [(.token .number, some "1.5"), (.token .equal, some "=＝"), (.token .string, some "「a「 」」"),
        (.token .newline, some "\n"), (.token .conjunction, some "かつ"),
        (.token .endOfFile, some "")] :=
  respaced.1
    [(.number, "1.5"), (.equal, "=＝"), (.string, "「a「 」」"), (.newline, "\n"),
      (.conjunction, "かつ")]
    _ (by decide +kernel) (by unfold Text.IsToken; decide +kernel)
    (.cons (by decide +kernel) (List.all_eq_true.1 (by decide +kernel))
      (.cons (by decide +kernel) (List.all_eq_true.1 (by decide +kernel))
        (.cons (by decide +kernel) (List.all_eq_true.1 (by decide +kernel))
          (.cons (by decide +kernel) (List.all_eq_true.1 (by decide +kernel)) (.singleton _)))))

end Stream

end StageScript
