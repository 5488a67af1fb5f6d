import StageScript.Proofs.Coercion
import StageScript.Proofs.Contexts
import StageScript.Proofs.NumberOrder
import StageScript.Proofs.Quoting
import StageScript.Token.Listing

set_option autoImplicit false

/-! # One number for all readers

What the scanner takes for a number is a plain decimal once its width is folded
(`Scanner.IsNumber.isPlain`), with no blank in it that a coercion could trim, so whoever reads the
text comes to the same number: the evaluation, the coercion of a string, and both listings. A
comparison looks at nothing but the number of its operand, so the literal and the string with the
same text can take the place of each other there (`Tree.Context.evaluate_fill_operand`). Main
statement: `Stream.numbers_read`. -/

namespace StageScript

/-! ## The text of a number -/

namespace Decimal

/-- ASCII digits, and a point with ASCII digits behind it if there is one. -/
inductive IsPlain : List Char → Prop where
  | whole {ds : List Char} (hne : ds ≠ []) (hds : ∀ d ∈ ds, isAsciiDigit d = true) : IsPlain ds
  | fraction {ds fs : List Char} (hne : ds ≠ []) (hds : ∀ d ∈ ds, isAsciiDigit d = true)
    (hne' : fs ≠ []) (hfs : ∀ d ∈ fs, isAsciiDigit d = true) : IsPlain (ds ++ '.' :: fs)

theorem IsUnsigned.zero_le {x : Float} (hx : IsUnsigned x) : 0.0 ≤ x := by
  have hzero : (0.0 : Float).toModel.unpack = .zero .positive := by rfl
  have hx' := hx.unpack
  rw [Comparison.le_iff, hzero]
  generalize x.toModel.unpack = u at hx' ⊢
  cases hx' <;> rfl

end Decimal

namespace Scanner.IsNumber

variable {w : List Char}

theorem isPlain (h : IsNumber w) : Decimal.IsPlain (w.map Text.halfWidth) := by
  cases h with
  | whole hne hds => exact .whole (by simpa using hne) (Text.isAsciiDigit_map_halfWidth hds)
  | fraction hne hds hpoint hne' hfs =>
    rw [List.map_append, List.map_cons, Text.halfWidth_point hpoint]
    exact .fraction (by simpa using hne) (Text.isAsciiDigit_map_halfWidth hds)
      (by simpa using hne') (Text.isAsciiDigit_map_halfWidth hfs)

/-- There are no blanks, newlines or marks in a number. -/
theorem no_blank_or_mark (h : IsNumber w) :
    ∀ c ∈ w, Text.isSpace c = false ∧ c ≠ '\n' ∧ c ≠ '「' ∧ c ≠ '」' := by
  intro c hc
  rcases h.digit_or_point c hc with hdigit | hpoint
  · exact Text.digit_cases
      (P := fun c => Text.isSpace c = false ∧ c ≠ '\n' ∧ c ≠ '「' ∧ c ≠ '」') (by decide) hdigit
  · obtain rfl | rfl : c = '.' ∨ c = '．' := by simpa [Text.isPoint] using hpoint
    · decide
    · decide

theorem quotable (h : IsNumber w) : Text.Quotable w where
  line hmem := (h.no_blank_or_mark _ hmem).2.1 rfl
  prefixes p hp := by
    have hclose : p.count '」' = 0 :=
      List.count_eq_zero.2 fun hmem => (h.no_blank_or_mark _ (hp.subset hmem)).2.2.2 rfl
    omega
  total := by
    rw [List.count_eq_zero.2 fun hmem => (h.no_blank_or_mark _ hmem).2.2.1 rfl,
      List.count_eq_zero.2 fun hmem => (h.no_blank_or_mark _ hmem).2.2.2 rfl]

/-- A coercion trims nothing off a number. -/
theorem trim_eq {s : String} (h : IsNumber s.toList) : Text.trim s = s := by
  rw [← String.toList_inj, Text.toList_trim]
  exact Text.trimChars_eq_self (fun c hc => (h.no_blank_or_mark c (List.mem_of_mem_head? hc)).1)
    fun c hc => (h.no_blank_or_mark c (List.mem_of_mem_getLast? hc)).1

end Scanner.IsNumber

/-! ## Operands of comparisons -/

theorem Value.coerceNumber_eq {v : Value} {x : Float} (h : v.asNumber = .ok x) (line : Nat) :
    v.coerceNumber line = pure x := by
  rw [coerceNumber, h]

/-- A comparison looks at nothing but the numbers that its operands are taken for. -/
theorem Comparison.apply_congr (c : Comparison) {v w : Value} {x : Float}
    (hv : v.asNumber = .ok x) (hw : w.asNumber = .ok x) (u : Value) (line : Nat) :
    c.apply v u line = c.apply w u line ∧ c.apply u v line = c.apply u w line := by
  simp only [apply, Value.coerceNumber_eq hv, Value.coerceNumber_eq hw, and_self]

namespace Tree.Context

/-- The hole is an operand of a comparison. -/
def IsOperand : Context → Prop
  | hole => False
  | group inner => inner.IsOperand
  | left o lhs _ => lhs.IsOperand ∨ lhs = .hole ∧ ∃ c, o = .comparison c
  | right o _ rhs => rhs.IsOperand ∨ rhs = .hole ∧ ∃ c, o = .comparison c
  | argument _ _ _ value _ _ => value.IsOperand

/-- Literals that are taken for the same number can take the place of each other as an operand of a
    comparison, whatever stands around it. -/
theorem evaluate_fill_operand {l l' : Literal} {x : Float}
    (hl : (Value.ofLiteral l).asNumber = .ok x) (hl' : (Value.ofLiteral l').asNumber = .ok x)
    (line : Nat) {c : Context} (hc : c.IsOperand) :
    (c.fill (.atom l line)).evaluate = (c.fill (.atom l' line)).evaluate := by
  have hline : ∀ c : Context, (c.fill (.atom l line)).line = (c.fill (.atom l' line)).line :=
    fun c => c.line_congr rfl
  induction c with
  | hole => exact hc.elim
  | group inner ih => exact evaluate_congr (.group .hole) (hline inner) (ih hc)
  | left o lhs rhs ih =>
    obtain hinner | ⟨rfl, c, rfl⟩ := hc
    · exact evaluate_congr (.left o .hole rhs) (hline lhs) (ih hinner)
    · have hcompare := fun u => (c.apply_congr hl hl' u line).1
      simp only [fill, Operator.join, evaluate]
      show (rhs.evaluate >>= fun u => c.apply (.ofLiteral l) u line) =
        rhs.evaluate >>= fun u => c.apply (.ofLiteral l') u line
      simp only [hcompare]
  | right o lhs rhs ih =>
    obtain hinner | ⟨rfl, c, rfl⟩ := hc
    · exact evaluate_congr (.right o lhs .hole) (hline rhs) (ih hinner)
    · have hcompare := fun u => (c.apply_congr hl hl' u lhs.line).2
      simp only [fill, Operator.join, evaluate]
      show (lhs.evaluate >>= fun u => c.apply u (.ofLiteral l) lhs.line) =
        lhs.evaluate >>= fun u => c.apply u (.ofLiteral l') lhs.line
      simp only [hcompare]
  | argument name earlier key value later callLine ih =>
    exact evaluate_congr (.argument name earlier key .hole later callLine) (hline value) (ih hc)

end Tree.Context

/-! ## Readers -/

/-- All readers of a number come to `x`. -/
structure Token.Reads (t : Token) (x : Float) : Prop where
  /-- The folded text is a plain decimal, and the decimal is read. -/
  plain : Decimal.IsPlain (Text.foldWidth t.text).toList
  read : Decimal.read? (Text.foldWidth t.text) = some x
  isNumber : x.isNaN = false
  nonnegative : 0.0 ≤ x
  /-- The evaluation takes the literal for the number and does not fall back on its text. -/
  value : Value.ofLiteral (.number t.text) = .number x
  /-- So does the coercion of a text. -/
  coerced : (Value.text t.text).asNumber = .ok x
  /-- The listings of expressions and of tokens show the number too. -/
  sexpr : (Literal.number t.text).sexpr = Decimal.listed x
  listed : t.plain = "NUMBER " ++ t.text ++ " " ++ Decimal.listed x
  /-- The text between marks is a string of the script. -/
  quoted : Scanner.Lexeme .string (Text.marked t.text).toList
  /-- An expression in which that string stands for the number as an operand of a comparison does
      the same on every stage, and comes to the same. -/
  replaced : ∀ c : Tree.Context, c.IsOperand → ∀ (line : Nat) (e f : Expression),
    e.tree? = some (c.fill (.atom (.number t.text) line)) →
    f.tree? = some (c.fill (.atom (.string (Text.marked t.text)) line)) → e.evaluate = f.evaluate

/-- **A number is the same for all its readers**: each number of a script is a plain decimal in
    either width, which evaluation, coercion and listings read as one number. -/
theorem Stream.numbers_read (source : String) {t : Token}
    (ht : .token t ∈ (ofString source).items) (hk : t.kind = .number) : ∃ x, t.Reads x := by
  have hlexeme : Scanner.Lexeme .number t.text.toList := hk ▸ Scanner.lexeme_of_mem ht
  have hnumber := Scanner.lexeme_number hlexeme
  obtain ⟨ds, e, hread⟩ := Scanner.exists_read?_number hlexeme
  have hunsigned := Decimal.isUnsigned_nearest ds e
  generalize Decimal.nearest ds e = x at hread hunsigned
  have hvalue : Value.ofLiteral (.number t.text) = .number x := by
    simp only [Value.ofLiteral, Literal.number, hread]
  have hcoerced : (Value.text t.text).asNumber = .ok x := by
    rw [Value.asNumber_text, Value.readNumber?, hnumber.trim_eq, hread]
    rfl
  have hstring : Value.ofLiteral (.string (Text.marked t.text)) = .text t.text := by
    simp only [Value.ofLiteral, Literal.string, Text.unmark?_marked, Option.getD_some]
  refine ⟨x, ?_, hread, hunsigned.isNaN, hunsigned.zero_le, hvalue, hcoerced, ?_, ?_,
    Text.lexeme_marked.2 hnumber.quotable, fun c hc line e f he hf => ?_⟩
  · rw [Text.toList_foldWidth]
    exact hnumber.isPlain
  · simp only [Literal.sexpr, Literal.number, hread, Option.map_some, Option.getD_some]
  · rw [Token.plain, hk]
    simp only [hread, Option.map_some, Option.getD_some]
  · rw [Expression.evaluate_of_tree? he, Expression.evaluate_of_tree? hf]
    exact Tree.Context.evaluate_fill_operand (by rw [hvalue]; rfl) (by rw [hstring, hcoerced]) line
      hc

/-- The number behind a guard mark is in both widths. -/
theorem Stream.numbers_read_mixed :
    Item.token ⟨.number, ⟨3, 7⟩, 1, "１.５"⟩ ∈ (ofString "※１.５ ≥ 3").items ∧
      ∃ x, Token.Reads ⟨.number, ⟨3, 7⟩, 1, "１.５"⟩ x := by
  have hmem : Item.token ⟨.number, ⟨3, 7⟩, 1, "１.５"⟩ ∈ (ofString "※１.５ ≥ 3").items := by
    decide +kernel
  exact ⟨hmem, numbers_read _ hmem rfl⟩

end StageScript
