import StageScript.Proofs.Form
import StageScript.Proofs.Magnitude
import StageScript.Proofs.NodeOrder
import StageScript.Proofs.TokenClasses

set_option autoImplicit false

/-! # The forms of trees

What is written of a tree is a form whose words are names and literals. The first character tells
which literal is a number, a string or a bare word (`Literal.Legible.isFormWord`), and the word in
front of a list and its length tell groups, calls and operators, unless a keyed argument looks like
a group or a call or an infinite number like a word. Main statement: `respell_of_form`, trees of the
same form are the same but for lines and the spelling of numbers. -/

namespace StageScript

open Scanner

/-! ## Literals -/

/-- The value that a number is listed by in place of its text, and any other text itself. -/
def Text.printed (text : String) : String :=
  ((Decimal.read? (Text.foldWidth text)).map Decimal.listed).getD text

/-- The text of a string spells no number, so that it stays. -/
theorem Text.printed_string {text : String} (h : Lexeme .string text.toList) :
    printed text = text := by
  have hread : Decimal.read? (Text.foldWidth text) = none := by
    obtain ⟨t, ht, -⟩ := lexeme_string.1 h
    rw [Decimal.read?, Text.toList_foldWidth, ht]
    rfl
  rw [printed, hread]
  rfl

/-- The literal is a token, and not an infinite number. -/
structure Literal.Legible (l : Literal) : Prop where
  lexeme : Lexeme l.kind.token l.text.toList
  finite : l.kind = .number → l.sexpr ≠ "inf"

/-- The kind of a literal by the first character that is written of it. -/
def LiteralKind.ofFirst (c : Char) : LiteralKind :=
  if c = '「' then .string else if Decimal.isAsciiDigit c then .number else .word

theorem isFormMark_eq_false {p : Char → Bool}
    (hp : ([' ', '(', ')', '\n', '「'].all fun m => !p m) = true) {c : Char} (hc : p c = true) :
    isFormMark c = false := by
  by_contra hmark
  have hmem : c ∈ [' ', '(', ')', '\n', '「'] := by
    rw [Bool.not_eq_false] at hmark
    simpa [isFormMark, or_assoc] using hmark
  have hout := List.all_eq_true.1 hp c hmem
  rw [hc] at hout
  cases hout

theorem isWord_of_lexeme {w : List Char} (h : Lexeme .identifier w) : IsWord w := by
  cases w with
  | nil => exact h.elim
  | cons c cs => exact (word_of_shape (by decide) (h.2 [] separated_nil)).1

theorem isBare_of_lexeme {w : List Char} (h : Lexeme .identifier w) : IsBare w where
  ne_nil := (isWord_of_lexeme h).ne_nil
  chars c hc := isFormMark_eq_false (p := isWordChar) (by decide) ((isWord_of_lexeme h).chars c hc)

namespace Decimal.IsMagnitude

theorem isBare {s : String} (h : IsMagnitude s) : IsBare s.toList := by
  obtain ⟨c, cs, heq, hc, hcs⟩ := h
  rw [heq]
  refine ⟨List.cons_ne_nil _ _, fun d hd => isFormMark_eq_false (p := isNumeral) (by decide) ?_⟩
  rcases List.mem_cons.1 hd with rfl | hd
  · exact isNumeral_of_digit hc
  · exact hcs d hd

end Decimal.IsMagnitude

namespace Literal.Legible

variable {l m : Literal}

theorem isMagnitude (h : l.Legible) (hk : l.kind = .number) : Decimal.IsMagnitude l.sexpr := by
  have hlexeme := h.lexeme
  rw [hk] at hlexeme
  exact (Literal.sexpr_number hk hlexeme).resolve_left (h.finite hk)

/-- A literal is legible as a word of a form, and its first character tells its kind. -/
theorem isFormWord (h : l.Legible) : IsFormWord l.sexpr.toList ∧
    ∃ c cs, l.sexpr.toList = c :: cs ∧ LiteralKind.ofFirst c = l.kind := by
  have hlexeme := h.lexeme
  cases hk : l.kind with
  | number =>
    have hmagnitude := h.isMagnitude hk
    refine ⟨.bare hmagnitude.isBare, ?_⟩
    obtain ⟨c, cs, heq, hc, -⟩ := hmagnitude
    refine ⟨c, cs, heq, ?_⟩
    rw [LiteralKind.ofFirst, if_neg, if_pos hc]
    rintro rfl
    exact absurd hc (by decide)
  | string =>
    rw [hk] at hlexeme
    obtain ⟨t, ht, hquotable⟩ := lexeme_string.1 hlexeme
    have hsexpr : l.sexpr.toList = '「' :: (t ++ ['」']) := by
      rw [sexpr, hk]
      exact ht
    rw [hsexpr]
    exact ⟨.string hquotable, '「', t ++ ['」'], rfl, rfl⟩
  | word =>
    rw [hk] at hlexeme
    have hsexpr : l.sexpr = l.text := by rw [sexpr, hk]
    rw [hsexpr]
    refine ⟨.bare (isBare_of_lexeme hlexeme), ?_⟩
    obtain ⟨hne, hchars, hstart⟩ := isWord_of_lexeme hlexeme
    obtain ⟨c, cs, heq⟩ := List.exists_cons_of_ne_nil hne
    rw [heq] at hchars hstart
    refine ⟨c, cs, heq, ?_⟩
    have hdigit : Decimal.isAsciiDigit c = false := by
      have hwide : Text.isDigit c = false := hstart c rfl
      rw [Text.isDigit, Bool.or_eq_false_iff] at hwide
      exact hwide.1
    rw [LiteralKind.ofFirst, if_neg, hdigit, if_neg (by decide)]
    rintro rfl
    exact absurd (hchars _ List.mem_cons_self) (by decide)

/-- Literals that are written alike are numbers that are listed alike, or the same. -/
theorem respell_eq (hl : l.Legible) (hm : m.Legible) (h : l.sexpr = m.sexpr) :
    l.respell Text.printed = m.respell Text.printed := by
  have hkind : l.kind = m.kind := by
    obtain ⟨-, c, cs, hc, hl⟩ := hl.isFormWord
    obtain ⟨-, d, ds, hd, hm⟩ := hm.isFormWord
    rw [h, hd] at hc
    obtain ⟨rfl, -⟩ := List.cons.inj hc
    rw [← hl, ← hm]
  obtain ⟨kind, text⟩ := l
  obtain ⟨_, text'⟩ := m
  obtain rfl : kind = _ := hkind
  cases kind with
  | number =>
    have hprinted : Text.printed text = Text.printed text' := h
    rw [Literal.respell, Literal.respell, hprinted]
  | string | word =>
    obtain rfl : text = text' := h
    rfl

end Literal.Legible

/-! ## Trees -/

/-- The sign or word of an operator in listings. -/
def Operator.symbol : Operator → String
  | comparison c => c.symbol
  | connective c => c.symbol

theorem Operator.symbol_injective {o p : Operator} (h : o.symbol = p.symbol) : o = p := by
  rcases o with c | c <;> rcases p with d | d <;> cases c <;> cases d <;>
    first | rfl | exact absurd h (by decide)

theorem Operator.isBare_symbol (o : Operator) : IsBare o.symbol.toList := by
  rcases o with c | c <;> cases c <;> exact isBare_of_all (by decide) (by decide)

theorem Operator.symbol_ne (o : Operator) : o.symbol ≠ "group" ∧ o.symbol ≠ "call" := by
  rcases o with c | c <;> cases c <;> decide

/-- The two kinds of operators taken as one. -/
theorem Tree.join_cases {motive : Tree → Prop} (atom : ∀ l line, motive (.atom l line))
    (group : ∀ inner, motive (.group inner))
    (join : ∀ (o : Operator) lhs rhs, motive (o.join lhs rhs))
    (call : ∀ name arguments line, motive (.call name arguments line)) : ∀ t, motive t
  | .atom l line => atom l line
  | .group inner => group inner
  | .comparison c lhs rhs => join (.comparison c) lhs rhs
  | .connective c lhs rhs => join (.connective c) lhs rhs
  | .call name arguments line => call name arguments line

mutual

/-- The form that is written of a tree. -/
def Tree.form : Tree → Form
  | .atom l _ => .word l.sexpr
  | .group inner => .list "group" (.cons inner.form .nil)
  | .comparison c lhs rhs => .list c.symbol (.cons lhs.form (.cons rhs.form .nil))
  | .connective c lhs rhs => .list c.symbol (.cons lhs.form (.cons rhs.form .nil))
  | .call name arguments _ => .list "call" (.cons (.word name) arguments.forms)

def TreeArguments.forms : TreeArguments → Forms
  | .nil => .nil
  | .cons none value rest => .cons value.form rest.forms
  | .cons (some key) value rest => .cons (.list key (.cons value.form .nil)) rest.forms

end

theorem Tree.form_join (o : Operator) (lhs rhs : Tree) :
    (o.join lhs rhs).form = .list o.symbol (.cons lhs.form (.cons rhs.form .nil)) := by
  cases o <;> rfl

theorem Tree.sexpr_join (o : Operator) (lhs rhs : Tree) :
    (o.join lhs rhs).sexpr = SExpression.ternary o.symbol lhs.sexpr rhs.sexpr := by
  cases o <;> rfl

theorem written_form :
    (∀ t : Tree, t.form.written = t.sexpr.toList) ∧
      ∀ a : TreeArguments, a.forms.written = (String.join a.sexprs).toList := by
  refine Tree.induct ?_ ?_ ?_ ?_ ?_ ?_
  · intro l line
    rfl
  · intro inner ih
    simp [Tree.form, Form.written, Forms.written, Tree.sexpr, ih]
  · intro o lhs rhs ihl ihr
    simp [Tree.form_join, Form.written, Forms.written, Tree.sexpr_join, SExpression.ternary, ihl,
      ihr]
  · intro name arguments line ih
    simp [Tree.form, Form.written, Forms.written, Tree.sexpr, ih]
  · rfl
  · intro key value rest ihv ihr
    cases key with
    | none =>
      simp [TreeArguments.forms, Forms.written, TreeArguments.sexprs, SExpression.argument, ihv,
        ihr]
    | some key =>
      simp [TreeArguments.forms, Form.written, Forms.written, TreeArguments.sexprs,
        SExpression.argument, ihv, ihr]

/-- Literals are legible and names are words, and so are keys, which are not those of a group or a
    call. -/
def Symbol.Legible : Symbol → Prop
  | literal l _ => l.Legible
  | name text _ => Lexeme .identifier text.toList
  | key text => Lexeme .identifier text.toList ∧ text ≠ "group" ∧ text ≠ "call"
  | sign _ => True

theorem legible_form :
    (∀ t : Tree, (∀ x ∈ t.yield, x.Legible) → t.form.Legible) ∧
      ∀ a : TreeArguments, (∀ x ∈ a.yield, x.Legible) → a.forms.Legible := by
  have hword : ∀ {w : String}, Lexeme .identifier w.toList → (Form.word w).Legible :=
    fun h => .bare (isBare_of_lexeme h)
  refine Tree.induct ?_ ?_ ?_ ?_ ?_ ?_
  · intro l line h
    exact (h (.literal l line) (by simp [Tree.yield])).isFormWord.1
  · intro inner ih h
    refine ⟨isBare_of_all (by decide) (by decide), ih fun x hx => h x ?_, trivial⟩
    simp [Tree.yield, hx]
  · intro o lhs rhs ihl ihr h
    rw [Tree.form_join]
    refine ⟨o.isBare_symbol, ihl fun x hx => h x ?_, ihr fun x hx => h x ?_, trivial⟩
    · simp [Tree.yield_join, hx]
    · simp [Tree.yield_join, hx]
  · intro name arguments line ih h
    refine ⟨isBare_of_all (by decide) (by decide),
      hword (h (.name name line) (by simp [Tree.yield])), ih fun x hx => h x ?_⟩
    simp [Tree.yield, hx]
  · intro _
    trivial
  · intro key value rest ihv ihr h
    have hvalue := ihv fun x hx => h x (by simp [TreeArguments.yield, hx])
    have hrest := ihr fun x hx => h x (by simp [TreeArguments.yield, hx])
    cases key with
    | none => exact ⟨hvalue, hrest⟩
    | some key =>
      have hkey : (Symbol.key key).Legible :=
        h _ (by simp [TreeArguments.yield, Symbol.ofKey])
      exact ⟨⟨isBare_of_lexeme hkey.1, hvalue, trivial⟩, hrest⟩

/-- A keyed argument is told from a value, which would be a group, a call or an operator with two
    operands. -/
theorem Tree.form_ne_keyed {key : String} (hkey : key ≠ "group" ∧ key ≠ "call") (t : Tree)
    (f : Form) : t.form ≠ .list key (.cons f .nil) := by
  intro h
  cases t using Tree.join_cases with
  | atom l line => cases h
  | group inner => exact hkey.1 (Form.list.inj h).1.symm
  | join o lhs rhs =>
    rw [Tree.form_join] at h
    cases (Form.list.inj h).2
  | call name arguments line => exact hkey.2 (Form.list.inj h).1.symm

theorem TreeArguments.forms_cons_inj {key key' : Option String} {value value' : Tree}
    {rest rest' : TreeArguments} (hkey : ∀ k ∈ key, k ≠ "group" ∧ k ≠ "call")
    (hkey' : ∀ k ∈ key', k ≠ "group" ∧ k ≠ "call")
    (h : (cons key value rest).forms = (cons key' value' rest').forms) :
    key = key' ∧ value.form = value'.form ∧ rest.forms = rest'.forms := by
  cases key with
  | none =>
    cases key' with
    | none => exact ⟨rfl, Forms.cons.inj h⟩
    | some k => exact absurd (Forms.cons.inj h).1 (value.form_ne_keyed (hkey' k rfl) _)
  | some k =>
    cases key' with
    | none => exact absurd (Forms.cons.inj h).1.symm (value'.form_ne_keyed (hkey k rfl) _)
    | some k' =>
      obtain ⟨hkeyed, hrest⟩ := Forms.cons.inj h
      obtain ⟨rfl, hvalue⟩ := Form.list.inj hkeyed
      exact ⟨rfl, (Forms.cons.inj hvalue).1, hrest⟩

/-! The first word of a form tells how the tree is built. -/

theorem Tree.eq_atom_of_form {l : Literal} {line : Nat} {u : Tree}
    (h : (atom l line).form = u.form) : ∃ m line', u = .atom m line' ∧ l.sexpr = m.sexpr := by
  cases u using Tree.join_cases with
  | atom m line' => exact ⟨m, line', rfl, Form.word.inj h⟩
  | join o lhs rhs =>
    rw [form_join] at h
    cases h
  | group | call => cases h

theorem Tree.eq_group_of_form {inner u : Tree} (h : (group inner).form = u.form) :
    ∃ inner', u = .group inner' ∧ inner.form = inner'.form := by
  cases u using Tree.join_cases with
  | atom => cases h
  | group inner' => exact ⟨inner', rfl, (Forms.cons.inj (Form.list.inj h).2).1⟩
  | join o lhs rhs =>
    rw [form_join] at h
    exact absurd (Form.list.inj h).1.symm o.symbol_ne.1
  | call name arguments line => exact absurd (Form.list.inj h).1 (by decide)

theorem Tree.eq_join_of_form {o : Operator} {lhs rhs u : Tree}
    (h : (o.join lhs rhs).form = u.form) :
    ∃ lhs' rhs', u = o.join lhs' rhs' ∧ lhs.form = lhs'.form ∧ rhs.form = rhs'.form := by
  rw [form_join] at h
  cases u using Tree.join_cases with
  | atom => cases h
  | group inner => exact absurd (Form.list.inj h).1 o.symbol_ne.1
  | join p lhs' rhs' =>
    rw [form_join] at h
    obtain ⟨hsymbol, hparts⟩ := Form.list.inj h
    obtain rfl := Operator.symbol_injective hsymbol
    obtain ⟨hl, hparts⟩ := Forms.cons.inj hparts
    exact ⟨lhs', rhs', rfl, hl, (Forms.cons.inj hparts).1⟩
  | call name arguments line => exact absurd (Form.list.inj h).1 o.symbol_ne.2

theorem Tree.eq_call_of_form {name : String} {arguments : TreeArguments} {line : Nat} {u : Tree}
    (h : (call name arguments line).form = u.form) :
    ∃ arguments' line', u = .call name arguments' line' ∧ arguments.forms = arguments'.forms := by
  cases u using Tree.join_cases with
  | atom => cases h
  | group inner => exact absurd (Form.list.inj h).1 (by decide)
  | join o lhs rhs =>
    rw [form_join] at h
    exact absurd (Form.list.inj h).1.symm o.symbol_ne.2
  | call name' arguments' line' =>
    obtain ⟨hname, hforms⟩ := Forms.cons.inj (Form.list.inj h).2
    exact ⟨arguments', line', by rw [Form.word.inj hname], hforms⟩

theorem TreeArguments.key_ne {key : Option String} {value : Tree} {rest : TreeArguments}
    (h : ∀ x ∈ (cons key value rest).yield, x.Legible) :
    ∀ k ∈ key, k ≠ "group" ∧ k ≠ "call" := by
  rintro k rfl
  have hkey : (Symbol.key k).Legible := h _ (by simp [yield, Symbol.ofKey])
  exact hkey.2

/-- Trees of the same form are the same but for lines and the spelling of numbers. -/
theorem respell_of_form :
    (∀ t : Tree, (∀ x ∈ t.yield, x.Legible) → ∀ u : Tree, (∀ x ∈ u.yield, x.Legible) →
        t.form = u.form →
        (t.withLine 0).respell Text.printed = (u.withLine 0).respell Text.printed) ∧
      ∀ a : TreeArguments, (∀ x ∈ a.yield, x.Legible) → ∀ b : TreeArguments,
        (∀ x ∈ b.yield, x.Legible) → a.forms = b.forms →
        (a.withLine 0).respell Text.printed = (b.withLine 0).respell Text.printed := by
  refine Tree.induct ?_ ?_ ?_ ?_ ?_ ?_
  · intro l line ht u hu h
    obtain ⟨m, line', rfl, hsexpr⟩ := Tree.eq_atom_of_form h
    have hl : l.Legible := ht (.literal l line) (by simp [Tree.yield])
    have hm : m.Legible := hu (.literal m line') (by simp [Tree.yield])
    simp only [Tree.withLine, Tree.respell, hl.respell_eq hm hsexpr]
  · intro inner ih ht u hu h
    obtain ⟨inner', rfl, hform⟩ := Tree.eq_group_of_form h
    have hinner := ih (fun x hx => ht x (by simp [Tree.yield, hx])) inner'
      (fun x hx => hu x (by simp [Tree.yield, hx])) hform
    simp only [Tree.withLine, Tree.respell, hinner]
  · intro o lhs rhs ihl ihr ht u hu h
    obtain ⟨lhs', rhs', rfl, hl, hr⟩ := Tree.eq_join_of_form h
    have hleft := ihl (fun x hx => ht x (by simp [Tree.yield_join, hx])) lhs'
      (fun x hx => hu x (by simp [Tree.yield_join, hx])) hl
    have hright := ihr (fun x hx => ht x (by simp [Tree.yield_join, hx])) rhs'
      (fun x hx => hu x (by simp [Tree.yield_join, hx])) hr
    cases o <;> simp only [Operator.join, Tree.withLine, Tree.respell, hleft, hright]
  · intro name arguments line ih ht u hu h
    obtain ⟨arguments', line', rfl, hforms⟩ := Tree.eq_call_of_form h
    have harguments := ih (fun x hx => ht x (by simp [Tree.yield, hx])) arguments'
      (fun x hx => hu x (by simp [Tree.yield, hx])) hforms
    simp only [Tree.withLine, Tree.respell, harguments]
  · intro _ b _ h
    cases b with
    | nil => rfl
    | cons key value rest => cases key <;> cases h
  · intro key value rest ihv ihr ha b hb h
    cases b with
    | nil => cases key <;> cases h
    | cons key' value' rest' =>
      obtain ⟨rfl, hvalue, hrest⟩ :=
        TreeArguments.forms_cons_inj (TreeArguments.key_ne ha) (TreeArguments.key_ne hb) h
      have hvalues := ihv (fun x hx => ha x (by simp [TreeArguments.yield, hx])) value'
        (fun x hx => hb x (by simp [TreeArguments.yield, hx])) hvalue
      have hrests := ihr (fun x hx => ha x (by simp [TreeArguments.yield, hx])) rest'
        (fun x hx => hb x (by simp [TreeArguments.yield, hx])) hrest
      simp only [TreeArguments.withLine, TreeArguments.respell, hvalues, hrests]

end StageScript
