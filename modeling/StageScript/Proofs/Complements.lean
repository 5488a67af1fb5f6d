import StageScript.Proofs.Accounting
import StageScript.Proofs.Contexts
import StageScript.Proofs.NumberOrder

set_option autoImplicit false

/-! # Guards and their negations

A guard that compares two operands takes them for numbers, and of numbers the comparisons are
complementary. The one thing that gets in the way is a text that spells a NaN: it is taken for one
without a report (`Tree.coerceNumber_of_spellsNaN`), and then all comparisons but one are false. No
other operand comes to a NaN, unless the stage answers with one (`Tree.isNaN_toNumber_value`). Main
statement: `Program.guards_complementary`. -/

namespace StageScript

/-! ## Texts that spell a NaN -/

/-- The text is the word `nan` in any ASCII case, behind a sign of either width or none, and with
    blanks around it. -/
def Text.SpellsNaN (s : String) : Prop :=
  (Decimal.readSign (Text.foldWidth (Text.trim s)).toList).2.map Char.toLower = ['n', 'a', 'n']

instance (s : String) : Decidable (Text.SpellsNaN s) :=
  inferInstanceAs (Decidable ((Decimal.readSign _).2.map Char.toLower = _))

namespace Decimal

theorem isNaN_of_readMagnitude? {cs : List Char} {x : Float} (h : readMagnitude? cs = some x) :
    x.isNaN = true ↔ cs.map Char.toLower = ['n', 'a', 'n'] := by
  have hinf : "inf".toList = ['i', 'n', 'f'] := by decide
  have hinfinity : "infinity".toList = ['i', 'n', 'f', 'i', 'n', 'i', 't', 'y'] := by decide
  have hnan : "nan".toList = ['n', 'a', 'n'] := by decide
  simp only [readMagnitude?, hinf, hinfinity, hnan] at h
  split at h
  · next hword =>
    obtain rfl := Option.some.inj h
    refine iff_of_false (by decide +kernel) fun heq => ?_
    rw [heq] at hword
    exact absurd hword (by decide)
  split at h
  · next hword =>
    obtain rfl := Option.some.inj h
    exact iff_of_true (by decide +kernel) (eq_of_beq hword)
  · next hword =>
    split at h
    · cases h
    · obtain ⟨e, -, rfl⟩ := Option.map_eq_some_iff.1 h
      refine iff_of_false ?_ (by simpa using hword)
      rw [(isUnsigned_nearest _ _).isNaN]
      exact Bool.false_ne_true

theorem readMagnitude?_nan {cs : List Char} (h : cs.map Char.toLower = ['n', 'a', 'n']) :
    readMagnitude? cs = some (0.0 / 0.0) := by
  rw [readMagnitude?, h]
  rfl

/-- The only word that is read as a NaN is its name, with or without a sign. -/
theorem isNaN_readChars? (cs : List Char) :
    (∃ x, readChars? cs = some x ∧ x.isNaN = true) ↔
      (readSign cs).2.map Char.toLower = ['n', 'a', 'n'] := by
  rw [readChars?]
  obtain ⟨negative, rest⟩ := readSign cs
  have hsign : ∀ x : Float, (if negative then -x else x).isNaN = x.isNaN := by
    intro x
    split
    · exact isNaN_neg x
    · rfl
  constructor
  · rintro ⟨x, hread, hx⟩
    obtain ⟨y, hy, rfl⟩ := Option.map_eq_some_iff.1 hread
    rw [hsign] at hx
    exact (isNaN_of_readMagnitude? hy).1 hx
  · intro hword
    have hnan : (0.0 / 0.0 : Float).isNaN = true := by decide +kernel
    dsimp only
    rw [readMagnitude?_nan hword]
    exact ⟨_, rfl, (hsign _).trans hnan⟩

end Decimal

namespace Value

theorem toNumber_text (s : String) : (text s).toNumber = (readNumber? s).getD 0.0 := by
  rw [toNumber, asNumber_text]
  cases readNumber? s <;> rfl

theorem exists_readNumber?_nan (s : String) :
    (∃ x, readNumber? s = some x ∧ x.isNaN = true) ↔ Text.SpellsNaN s :=
  Decimal.isNaN_readChars? (Text.foldWidth (Text.trim s)).toList

/-- A text is taken for a NaN if it spells one, and never else. -/
theorem isNaN_toNumber_text (s : String) :
    (text s).toNumber.isNaN = true ↔ Text.SpellsNaN s := by
  rw [toNumber_text, ← exists_readNumber?_nan]
  cases readNumber? s with
  | none => exact iff_of_false (by decide +kernel) (by simp)
  | some x => simp

/-- A text that spells a NaN is taken for one without a report. -/
theorem coerceNumber_of_spellsNaN {s : String} (h : Text.SpellsNaN s) (line : Nat) :
    ∃ x, (text s).coerceNumber line = pure x ∧ x.isNaN = true := by
  obtain ⟨x, hx, hnan⟩ := (exists_readNumber?_nan s).2 h
  refine ⟨x, ?_, hnan⟩
  rw [coerceNumber, asNumber_text, hx]
  rfl

theorem isNaN_toNumber_truth (b : Bool) : (truth b).toNumber.isNaN = false := by
  cases b <;> decide +kernel

end Value

/-! ## Expressions that spell a NaN -/

/-- The expression is a string or a bare word that spells a NaN, in any number of brackets. -/
def Tree.SpellsNaN : Tree → Prop
  | atom l _ => l.kind ≠ .number ∧ Text.SpellsNaN l.argumentText
  | group inner => inner.SpellsNaN
  | comparison .. | connective .. | call .. => False

theorem Value.ofLiteral_of_ne_number {l : Literal} (h : l.kind ≠ .number) :
    ofLiteral l = text l.argumentText := by
  obtain ⟨kind, s⟩ := l
  cases kind with
  | number => exact (h rfl).elim
  | string | word => rfl

/-- A number of a script is no NaN. -/
theorem Value.isNaN_toNumber_number {l : Literal} (hk : l.kind = .number)
    (h : Scanner.Lexeme .number l.text.toList) : (ofLiteral l).toNumber.isNaN = false := by
  obtain ⟨ds, e, hread⟩ := Scanner.exists_read?_number h
  rw [ofLiteral, hk]
  dsimp only
  rw [hread]
  exact (Decimal.isUnsigned_nearest ds e).isNaN

/-- An operand that spells a NaN is taken for one without a report, too. -/
theorem Tree.coerceNumber_of_spellsNaN {t : Tree} (h : t.SpellsNaN) (line : Nat) :
    ∃ x, (t.evaluate >>= fun v => v.coerceNumber line) = pure x ∧ x.isNaN = true := by
  induction t using Tree.evaluated_induct with
  | atom l line' =>
    obtain ⟨x, hx, hnan⟩ := Value.coerceNumber_of_spellsNaN h.2 line
    refine ⟨x, ?_, hnan⟩
    rw [evaluate, Value.ofLiteral_of_ne_number h.1, Performance.bind_of_pure, hx]
  | group inner ih =>
    rw [evaluate]
    exact ih h
  | join o lhs rhs => cases o <;> exact h.elim
  | unknown | bare | argument => exact h.elim

section Trees

variable {answer : Query → Float}

theorem Operator.exists_value_apply (o : Operator) (lhs rhs : Value) (line : Nat) :
    ∃ b, (o.apply lhs rhs line).value answer = .truth b := by
  cases o <;> simp [apply, Comparison.apply, Connective.apply]

/-- An operand comes to a NaN only where its text spells one, unless the stage answers with one. -/
theorem Tree.isNaN_toNumber_value (hanswer : ∀ q, (answer q).isNaN = false) {t : Tree}
    (ht : ∀ x ∈ t.yield, x.Writable) :
    (t.evaluate.value answer).toNumber.isNaN = true ↔ t.SpellsNaN := by
  induction t using Tree.evaluated_induct with
  | atom l line =>
    rw [evaluate, Performance.value_pure, SpellsNaN]
    by_cases hk : l.kind = .number
    · have hlexeme := (ht (.literal l line) (by simp [yield])).1
      rw [Symbol.kind, hk] at hlexeme
      rw [Value.isNaN_toNumber_number hk hlexeme]
      simp [hk]
    · rw [Value.ofLiteral_of_ne_number hk, Value.isNaN_toNumber_text, and_iff_right hk]
  | group inner ih =>
    rw [evaluate, SpellsNaN]
    exact ih fun x hx => ht x (by simp [yield, hx])
  | join o lhs rhs ihl ihr =>
    rw [evaluate_join, Performance.value_bind, Performance.value_bind]
    obtain ⟨b, hb⟩ := o.exists_value_apply (lhs.evaluate.value answer)
      (rhs.evaluate.value answer) lhs.line
    rw [hb, Value.isNaN_toNumber_truth]
    cases o <;> simp [Operator.join, SpellsNaN]
  | unknown name arguments line hname =>
    have hzero : ((BuiltIn.applyUnknown name line).value answer).toNumber = 0.0 := rfl
    rw [evaluate_unknown hname, hzero]
    exact iff_of_false (by decide +kernel) id
  | bare name arguments line f hname hchoose =>
    rw [evaluate_bare hname hchoose, BuiltIn.value_apply]
    exact iff_of_false (ne_true_of_eq_false (hanswer _)) id
  | argument name arguments line f t hname hchoose ih =>
    rw [evaluate_argument hname hchoose, Performance.value_bind, BuiltIn.value_apply]
    exact iff_of_false (ne_true_of_eq_false (hanswer _)) id

/-- A guard under a comparison is met if the comparison holds of the numbers of its operands. -/
theorem Statement.value_performGuard_comparison (c : Comparison) (a b : Tree) (line : Nat) :
    (performGuard (.ofTree (.comparison c a b)) line).value answer =
      c.holds (a.evaluate.value answer).toNumber (b.evaluate.value answer).toNumber := by
  rw [performGuard, Expression.evaluate_ofTree, Tree.evaluate]
  simp [Comparison.apply, Value.toBool, Value.asBool, Except.toOption]

end Trees

/-- A stage with a clock that shows a number answers every question with one. -/
theorem Recording.isNaN_answer {r : Recording} (htime : r.time.isNaN = false) (q : Query) :
    (r.answer q).isNaN = false := by
  cases q with
  | directory path => exact (Decimal.isUnsigned_ofScientific _ false 0).isNaN
  | clock => exact htime

/-! ## Guards of scripts -/

/-- The expression stands somewhere in a condition of the program. -/
def Program.Subexpression (p : Program) (t : Tree) : Prop :=
  ∃ s ∈ p.statements, ∃ g ∈ s.guards, ∃ c : Tree.Context, g.condition.tree? = some (c.fill t)

/-- The conditions of what can be written can be written. -/
theorem Statement.Writable.guards {s : Statement} (h : s.Writable) :
    ∀ g ∈ s.guards, ∃ t, g.condition = .ofTree t ∧ t.Writable := by
  induction s with
  | dialogue | command => simp [Statement.guards]
  | conditional condition body jump line ih =>
    obtain ⟨hcondition, hbody, -⟩ := h
    exact List.forall_mem_cons.2 ⟨hcondition, ih hbody⟩

/-- The symbols of what stands in a parsed script can be written. -/
theorem Program.Subexpression.writable {source : String} {p : Program}
    (hp : Program.parse source = .ok p) {t : Tree} (h : p.Subexpression t) :
    ∀ x ∈ t.yield, x.Writable := by
  obtain ⟨s, hs, g, hg, c, hc⟩ := h
  obtain ⟨whole, hcondition, hwhole⟩ := (writable_of_parse hp s hs).guards g hg
  rw [hcondition, Expression.tree?_ofTree] at hc
  obtain rfl := Option.some.inj hc
  intro x hx
  exact hwhole.symbols x (by simp [Tree.Context.yield_fill, hx])

/-- **Guards are complementary unless an operand spells a NaN**: of the guards that compare two
    operands of parsed scripts with `less`, `equal` and `greater` exactly one is met, and the other
    three comparisons are their negations, if the clock shows a number. An operand that spells a NaN
    is taken for one, and the stage hears nothing of it. -/
theorem Program.guards_complementary {source source' : String} {p p' : Program}
    (hp : parse source = .ok p) (hp' : parse source' = .ok p') {a b : Tree}
    (ha : p.Subexpression a) (hb : p'.Subexpression b) {r : Recording}
    (htime : r.time.isNaN = false) (line : Nat) :
    (Comparison.Complementary (fun c =>
        ((Statement.performGuard (.ofTree (.comparison c a b)) line).onRecording r).1) ↔
      ¬a.SpellsNaN ∧ ¬b.SpellsNaN) ∧
    ∀ t ∈ [a, b], t.SpellsNaN →
      ∃ x, (t.evaluate >>= fun v => v.coerceNumber line).onRecording r = (x, r) ∧
        x.isNaN = true := by
  refine ⟨?_, fun t _ hspells => ?_⟩
  · have hanswer := Recording.isNaN_answer htime
    rw [← Tree.isNaN_toNumber_value hanswer (ha.writable hp),
      ← Tree.isNaN_toNumber_value hanswer (hb.writable hp'), Bool.not_eq_true, Bool.not_eq_true,
      ← Comparison.complementary_iff]
    simp only [Performance.onRecording_eq, Statement.value_performGuard_comparison]
  · obtain ⟨x, hx, hnan⟩ := Tree.coerceNumber_of_spellsNaN hspells line
    exact ⟨x, by rw [hx]; rfl, hnan⟩

/-- Both operands of a guard stand in its program. -/
theorem Program.subexpression_operands (c : Comparison) (a b : Tree) (body : Statement)
    (jump : Option String) (line : Nat) :
    Subexpression ⟨[.conditional (.ofTree (.comparison c a b)) body jump line]⟩ a ∧
      Subexpression ⟨[.conditional (.ofTree (.comparison c a b)) body jump line]⟩ b := by
  have htree : (Expression.ofTree (.comparison c a b)).tree? = some (.comparison c a b) :=
    Expression.tree?_ofTree _
  exact ⟨⟨_, List.mem_cons_self, _, List.mem_cons_self, .left (.comparison c) .hole b, htree⟩,
    ⟨_, List.mem_cons_self, _, List.mem_cons_self, .right (.comparison c) a .hole, htree⟩⟩

/-- A call against a quoted number of both widths, late in the evening. -/
theorem Program.guards_complementary_quoted :
    ∃ p a b, parse "※現在時刻() ≥ 「１8．5」\n「遅い」" = .ok p ∧ p.Subexpression a ∧
      p.Subexpression b ∧ (Recording.empty.withTime 2330.0).time.isNaN = false ∧
      ¬a.SpellsNaN ∧ ¬b.SpellsNaN ∧
      Comparison.Complementary (fun c =>
        ((Statement.performGuard (.ofTree (.comparison c a b)) 1).onRecording
          (Recording.empty.withTime 2330.0)).1) := by
  have hparse : parse "※現在時刻() ≥ 「１8．5」\n「遅い」" =
      .ok ⟨[.conditional (.ofTree (.comparison .greaterEqual (.call "現在時刻" .nil 1)
        (.atom (.string "「１8．5」") 1))) (.dialogue "「遅い」" 2) none 1]⟩ := by decide +kernel
  have htime : (Recording.empty.withTime 2330.0).time.isNaN = false := by decide +kernel
  have hspells : ¬Tree.SpellsNaN (.call "現在時刻" .nil 1) ∧
      ¬Tree.SpellsNaN (.atom (.string "「１8．5」") 1) :=
    ⟨id, fun h => absurd h.2 (by decide +kernel)⟩
  obtain ⟨ha, hb⟩ := subexpression_operands .greaterEqual (.call "現在時刻" .nil 1)
    (.atom (.string "「１8．5」") 1) (.dialogue "「遅い」" 2) none 1
  exact ⟨_, _, _, hparse, ha, hb, htime, hspells.1, hspells.2,
    (guards_complementary hparse hparse ha hb htime 1).1.2 hspells⟩

/-- A bare word that spells a NaN is below no number, equal to none and above none, and nothing is
    reported. -/
theorem Program.guards_nan :
    ∃ p a b, parse "※nan ＜ 1\n「小」" = .ok p ∧ p.Subexpression a ∧ p.Subexpression b ∧
      Recording.empty.time.isNaN = false ∧
      (∀ c ∈ [Comparison.less, .equal, .greater],
        ((Statement.performGuard (.ofTree (.comparison c a b)) 1).onRecording .empty).1 = false ∧
        ((Statement.performGuard (.ofTree (.comparison c a b)) 1).onRecording
          .empty).2.diagnostics = []) ∧
      ¬Comparison.Complementary (fun c =>
        ((Statement.performGuard (.ofTree (.comparison c a b)) 1).onRecording .empty).1) := by
  have hparse : parse "※nan ＜ 1\n「小」" =
      .ok ⟨[.conditional (.ofTree (.comparison .less (.atom (.word "nan") 1)
        (.atom (.number "1") 1))) (.dialogue "「小」" 2) none 1]⟩ := by decide +kernel
  obtain ⟨ha, hb⟩ := subexpression_operands .less (.atom (.word "nan") 1)
    (.atom (.number "1") 1) (.dialogue "「小」" 2) none 1
  have hguards : ∀ c ∈ [Comparison.less, .equal, .greater],
      ((Statement.performGuard (.ofTree (.comparison c (.atom (.word "nan") 1)
        (.atom (.number "1") 1))) 1).onRecording .empty).1 = false ∧
      ((Statement.performGuard (.ofTree (.comparison c (.atom (.word "nan") 1)
        (.atom (.number "1") 1))) 1).onRecording .empty).2.diagnostics = [] := by
    decide +kernel
  refine ⟨_, _, _, hparse, ha, hb, by decide +kernel, hguards, fun h => absurd h.one ?_⟩
  rw [(hguards .less (by decide)).1, (hguards .equal (by decide)).1,
    (hguards .greater (by decide)).1]
  decide

end StageScript
