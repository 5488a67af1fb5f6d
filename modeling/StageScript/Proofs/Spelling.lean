import Mathlib.Data.List.Chain
import Mathlib.Data.List.Forall2
import StageScript.Syntax.Tree

set_option autoImplicit false

/-! # Trees as sequences of tokens

`Tree.yield` reads a tree from left to right: groups with their parentheses, calls with their name,
their keys and their parentheses. Three properties single out, among all trees with one yield, the
one that a reader means: `Token.Spells` ties the yield to tokens, `Tree.Levelled` says that no
operator holds an operand which a looser one should have, and `Tree.Apart` that no bare word stands
before an opening parenthesis, where it would be the name of a call. -/

namespace StageScript

/-! ## Induction -/

/-- Induction over trees and arguments, with one case for both kinds of operators. -/
theorem Tree.induct {P : Tree → Prop} {Q : TreeArguments → Prop}
    (atom : ∀ literal line, P (.atom literal line))
    (group : ∀ inner, P inner → P (.group inner))
    (join : ∀ (o : Operator) lhs rhs, P lhs → P rhs → P (o.join lhs rhs))
    (call : ∀ name arguments line, Q arguments → P (.call name arguments line))
    (nil : Q .nil)
    (cons : ∀ key value rest, P value → Q rest → Q (.cons key value rest)) :
    (∀ t, P t) ∧ ∀ a, Q a :=
  ⟨@Tree.rec P Q atom group (fun c => join (.comparison c)) (fun c => join (.connective c)) call
      nil cons,
    @TreeArguments.rec P Q atom group (fun c => join (.comparison c))
      (fun c => join (.connective c)) call nil cons⟩

/-! ## Levels -/

namespace Operator

/-- How tightly an operator holds its operands: `or` is loosest, then `and`, then comparisons. -/
def level : Operator → Nat
  | connective .disjunction => 0
  | connective .conjunction => 1
  | comparison _ => 2

/-- The kind of token that stands for an operator. -/
def token : Operator → TokenKind
  | comparison .equal => .equal
  | comparison .notEqual => .notEqual
  | comparison .less => .less
  | comparison .lessEqual => .lessEqual
  | comparison .greater => .greater
  | comparison .greaterEqual => .greaterEqual
  | connective .conjunction => .conjunction
  | connective .disjunction => .disjunction

theorem ofToken?_eq_some {kind : TokenKind} {o : Operator} :
    ofToken? kind = some o ↔ kind = o.token := by
  constructor
  · intro h
    cases kind <;> cases h <;> rfl
  · rintro rfl
    rcases o with c | c <;> cases c <;> rfl

theorem level_lt_three (o : Operator) : o.level < 3 := by
  rcases o with c | c
  · simp [level]
  · cases c <;> simp [level]

/-- An operator leaves its place on the right of another one exactly when it is no tighter. -/
theorem powers_lt_iff (o other : Operator) :
    o.powers.1 < other.powers.2 ↔ o.level ≤ other.level := by
  rcases o with c | c <;> rcases other with d | d <;> cases c <;> cases d <;> simp [powers, level]

/-- The tighter of two operators has the larger power on its left. -/
theorem powers_le_iff (o other : Operator) :
    o.powers.1 ≤ other.powers.1 ↔ o.level ≤ other.level := by
  rcases o with c | c <;> rcases other with d | d <;> cases c <;> cases d <;> simp [powers, level]

end Operator

/-- The operator at the root of a tree. -/
def Tree.root? : Tree → Option Operator
  | comparison c _ _ => some (.comparison c)
  | connective c _ _ => some (.connective c)
  | atom .. | group _ | call .. => none

@[simp] theorem Tree.root?_join (o : Operator) (lhs rhs : Tree) :
    (o.join lhs rhs).root? = some o := by
  cases o <;> rfl

/-- The level of a tree is that of the operator at its root; atoms, groups and calls are above all
    operators. -/
def Tree.level (t : Tree) : Nat :=
  match t.root? with
  | some o => o.level
  | none => 3

@[simp] theorem Tree.level_join (o : Operator) (lhs rhs : Tree) :
    (o.join lhs rhs).level = o.level := by
  simp [level]

theorem Tree.level_of_operand {t : Tree} (h : t.root? = none) : t.level = 3 := by
  rw [level, h]

theorem Tree.level_of_root {t : Tree} {o : Operator} (h : t.root? = some o) :
    t.level = o.level := by
  rw [level, h]

mutual

/-- At every operator of the tree the left operand has at least its level and the right operand a
    higher one. -/
def Tree.Levelled : Tree → Prop
  | .atom .. => True
  | .group inner => inner.Levelled
  | .comparison c lhs rhs => lhs.Levelled ∧ rhs.Levelled ∧
    (Operator.comparison c).level ≤ lhs.level ∧ (Operator.comparison c).level < rhs.level
  | .connective c lhs rhs => lhs.Levelled ∧ rhs.Levelled ∧
    (Operator.connective c).level ≤ lhs.level ∧ (Operator.connective c).level < rhs.level
  | .call _ arguments _ => arguments.Levelled

/-- The same in every argument. -/
def TreeArguments.Levelled : TreeArguments → Prop
  | .nil => True
  | .cons _ value rest => value.Levelled ∧ rest.Levelled

end

theorem Tree.levelled_join {o : Operator} {lhs rhs : Tree} :
    (o.join lhs rhs).Levelled ↔
      lhs.Levelled ∧ rhs.Levelled ∧ o.level ≤ lhs.level ∧ o.level < rhs.level := by
  cases o <;> simp [Operator.join, Tree.Levelled]

/-! ## Yields -/

/-- The kind of token that a literal is written as. -/
def LiteralKind.token : LiteralKind → TokenKind
  | number => .number
  | string => .string
  | word => .identifier

/-- What a token does in an expression. -/
inductive Symbol where
  | literal (l : Literal) (line : Nat)
  /-- The name of a call. -/
  | name (text : String) (line : Nat)
  /-- The key of an argument. -/
  | key (text : String)
  | sign (kind : TokenKind)

/-- The kind of token that it is. -/
def Symbol.kind : Symbol → TokenKind
  | literal l _ => l.kind.token
  | name .. | key _ => .identifier
  | sign kind => kind

/-- A literal that is a bare word. -/
def Symbol.IsWord : Symbol → Prop
  | literal l _ => l.kind = .word
  | name .. | key _ | sign _ => False

/-- A key with its colon, if there is one. -/
def Symbol.ofKey : Option String → List Symbol
  | some text => [key text, sign .colon]
  | none => []

/-- The token has the kind, the text and the line that the symbol tells. -/
def Token.Spells (t : Token) : Symbol → Prop
  | .literal l line => t.kind = l.kind.token ∧ t.text = l.text ∧ t.line = line
  | .name text line => t.kind = .identifier ∧ t.text = text ∧ t.line = line
  | .key text => t.kind = .identifier ∧ t.text = text
  | .sign kind => t.kind = kind

theorem Token.Spells.kind_eq {t : Token} {x : Symbol} (h : t.Spells x) : t.kind = x.kind := by
  cases x with
  | literal l line => exact h.1
  | name text line => exact h.1
  | key text => exact h.1
  | sign kind => exact h

mutual

/-- The symbols of a tree from left to right. -/
def Tree.yield : Tree → List Symbol
  | .atom l line => [.literal l line]
  | .group inner => .sign .leftParen :: inner.yield ++ [.sign .rightParen]
  | .comparison c lhs rhs => lhs.yield ++ .sign (Operator.comparison c).token :: rhs.yield
  | .connective c lhs rhs => lhs.yield ++ .sign (Operator.connective c).token :: rhs.yield
  | .call name arguments line =>
    .name name line :: .sign .leftParen :: arguments.yield ++ [.sign .rightParen]

/-- The symbols of the arguments of a call. -/
def TreeArguments.yield : TreeArguments → List Symbol
  | .nil => []
  | .cons key value rest => Symbol.ofKey key ++ (value.yield ++ rest.yield)

end

theorem Tree.yield_join (o : Operator) (lhs rhs : Tree) :
    (o.join lhs rhs).yield = lhs.yield ++ .sign o.token :: rhs.yield := by
  cases o <;> rfl

/-- The tokens spell the symbols one by one. -/
def Spelled (ts : List Token) (xs : List Symbol) : Prop := List.Forall₂ Token.Spells ts xs

namespace Spelled

theorem nil : Spelled [] [] := List.Forall₂.nil

theorem cons {t : Token} {x : Symbol} {ts : List Token} {xs : List Symbol} (h : t.Spells x)
    (hs : Spelled ts xs) : Spelled (t :: ts) (x :: xs) := List.Forall₂.cons h hs

theorem append {ts us : List Token} {xs ys : List Symbol} (h : Spelled ts xs)
    (h' : Spelled us ys) : Spelled (ts ++ us) (xs ++ ys) := List.rel_append h h'

theorem map_kind {ts : List Token} {xs : List Symbol} (h : Spelled ts xs) :
    ts.map Token.kind = xs.map Symbol.kind := by
  induction h with
  | nil => rfl
  | cons hu _ ih => rw [List.map_cons, List.map_cons, hu.kind_eq, ih]

theorem exists_of_cons {ts : List Token} {x : Symbol} {xs : List Symbol}
    (h : Spelled ts (x :: xs)) : ∃ u us, ts = u :: us ∧ u.Spells x ∧ Spelled us xs := by
  cases h with
  | cons hu hus => exact ⟨_, _, rfl, hu, hus⟩

theorem exists_of_append {ts : List Token} {xs ys : List Symbol} (h : Spelled ts (xs ++ ys)) :
    ∃ us vs, ts = us ++ vs ∧ Spelled us xs ∧ Spelled vs ys :=
  ⟨ts.take xs.length, ts.drop xs.length, (List.take_append_drop _ _).symm,
    List.forall₂_take_append _ _ _ h, List.forall₂_drop_append _ _ _ h⟩

theorem eq_singleton {ts : List Token} {x : Symbol} (h : Spelled ts [x]) :
    ∃ u, ts = [u] ∧ u.Spells x := by
  obtain ⟨u, us, rfl, hu, hus⟩ := exists_of_cons h
  cases hus
  exact ⟨u, rfl, hu⟩

end Spelled

/-! ## Bare words and parentheses -/

/-- The second symbol may stand behind the first: no opening parenthesis follows a bare word. -/
def Symbol.MayPrecede (x y : Symbol) : Prop := x.IsWord → y.kind ≠ .leftParen

/-- No bare word stands before an opening parenthesis. -/
def WordsApart (xs : List Symbol) : Prop := List.IsChain Symbol.MayPrecede xs

/-- No bare word of the tree stands before an opening parenthesis when a token of the given kind
    follows the tree. -/
def Tree.Apart (t : Tree) (next : TokenKind) : Prop := WordsApart (t.yield ++ [.sign next])

/-- No bare word of the arguments stands before an opening parenthesis when the closing one follows
    them. -/
def TreeArguments.Apart (a : TreeArguments) : Prop := WordsApart (a.yield ++ [.sign .rightParen])

namespace WordsApart

theorem cons_iff_of_not_word {x : Symbol} (hx : ¬x.IsWord) {xs : List Symbol} :
    WordsApart (x :: xs) ↔ WordsApart xs := by
  cases xs with
  | nil => exact ⟨fun _ => .nil, fun _ => .singleton _⟩
  | cons y ys =>
    rw [WordsApart, List.isChain_cons_cons]
    exact ⟨fun h => h.2, fun h => ⟨fun hw => absurd hw hx, h⟩⟩

/-- Of a symbol that follows only the kind matters. -/
theorem append_iff {xs ys : List Symbol} {y : Symbol} :
    WordsApart (xs ++ y :: ys) ↔ WordsApart (xs ++ [.sign y.kind]) ∧ WordsApart (y :: ys) := by
  have hlast : ∀ z : Symbol, z.kind = y.kind →
      ((∀ x ∈ xs.getLast?, x.MayPrecede z) ↔ ∀ x ∈ xs.getLast?, x.MayPrecede y) := by
    intro z hz
    simp only [Symbol.MayPrecede, hz]
  rw [WordsApart, WordsApart, WordsApart, List.isChain_append, List.isChain_append]
  simp only [List.head?_cons, Option.mem_some_iff, forall_eq', List.isChain_singleton, true_and,
    hlast (.sign y.kind) rfl]
  exact ⟨fun ⟨hxs, hys, hxy⟩ => ⟨⟨hxs, hxy⟩, hys⟩, fun ⟨⟨hxs, hxy⟩, hys⟩ => ⟨hxs, hys, hxy⟩⟩

theorem of_append {xs ys : List Symbol} (h : WordsApart (xs ++ ys)) : WordsApart xs :=
  List.IsChain.left_of_append h

/-- Anything but an opening parenthesis may follow. -/
theorem append_sign {xs : List Symbol} (h : WordsApart xs) {kind : TokenKind}
    (hkind : kind ≠ .leftParen) : WordsApart (xs ++ [.sign kind]) :=
  List.isChain_append.2 ⟨h, List.isChain_singleton _, fun x _ y hy _ => by
    cases hy
    exact hkind⟩

theorem sign_cons_iff {kind : TokenKind} {xs : List Symbol} :
    WordsApart (.sign kind :: xs) ↔ WordsApart xs := cons_iff_of_not_word id

theorem singleton (x : Symbol) : WordsApart [x] := List.isChain_singleton x

end WordsApart

@[simp] theorem Tree.apart_atom {l : Literal} {line : Nat} {next : TokenKind} :
    (Tree.atom l line).Apart next ↔ (l.kind = .word → next ≠ .leftParen) := by
  simp [Apart, WordsApart, Tree.yield, Symbol.MayPrecede, Symbol.IsWord, Symbol.kind]

@[simp] theorem Tree.apart_group {inner : Tree} {next : TokenKind} :
    (Tree.group inner).Apart next ↔ inner.Apart .rightParen := by
  simp only [Apart, Tree.yield, List.cons_append, List.append_assoc, List.nil_append]
  rw [WordsApart.sign_cons_iff, WordsApart.append_iff, WordsApart.sign_cons_iff]
  exact and_iff_left (.singleton _)

@[simp] theorem Tree.apart_join {o : Operator} {lhs rhs : Tree} {next : TokenKind} :
    (o.join lhs rhs).Apart next ↔ lhs.Apart o.token ∧ rhs.Apart next := by
  rw [Apart, Tree.yield_join, List.append_assoc, List.cons_append, WordsApart.append_iff,
    WordsApart.sign_cons_iff]
  rfl

@[simp] theorem Tree.apart_call {name : String} {arguments : TreeArguments} {line : Nat}
    {next : TokenKind} : (Tree.call name arguments line).Apart next ↔ arguments.Apart := by
  simp only [Apart, Tree.yield, List.cons_append, List.append_assoc, List.nil_append]
  rw [WordsApart.cons_iff_of_not_word id, WordsApart.sign_cons_iff, WordsApart.append_iff,
    WordsApart.sign_cons_iff]
  exact and_iff_left (.singleton _)

@[simp] theorem TreeArguments.apart_nil : TreeArguments.nil.Apart := .singleton _

/-- The kind of the token with which the arguments start, the closing parenthesis included. -/
def TreeArguments.firstKind (a : TreeArguments) : TokenKind :=
  ((a.yield ++ [Symbol.sign .rightParen]).head (by simp)).kind

theorem TreeArguments.exists_yield_eq (a : TreeArguments) :
    ∃ y ys, a.yield ++ [Symbol.sign .rightParen] = y :: ys ∧ a.firstKind = y.kind := by
  obtain ⟨y, ys, hys⟩ := List.exists_cons_of_ne_nil
    (show a.yield ++ [Symbol.sign .rightParen] ≠ [] by simp)
  exact ⟨y, ys, hys, by simp only [firstKind, hys, List.head_cons]⟩

theorem TreeArguments.apart_cons {key : Option String} {value : Tree} {rest : TreeArguments} :
    (TreeArguments.cons key value rest).Apart ↔ value.Apart rest.firstKind ∧ rest.Apart := by
  have hvalue : WordsApart (value.yield ++ (rest.yield ++ [.sign .rightParen])) ↔
      value.Apart rest.firstKind ∧ rest.Apart := by
    obtain ⟨y, ys, hys, hfirst⟩ := rest.exists_yield_eq
    rw [TreeArguments.Apart, hys, WordsApart.append_iff, hfirst, Tree.Apart]
  rw [TreeArguments.Apart, TreeArguments.yield, List.append_assoc, List.append_assoc]
  cases key with
  | none => exact hvalue
  | some key =>
    rw [Symbol.ofKey, List.cons_append, List.cons_append, WordsApart.cons_iff_of_not_word id,
      WordsApart.sign_cons_iff]
    exact hvalue

/-! ## How trees start -/

/-- The kinds of token with which an operand starts. -/
def TokenKind.startsOperand : TokenKind → Bool
  | .number | .string | .identifier | .leftParen => true
  | _ => false

theorem TokenKind.of_startsOperand {kind : TokenKind} (h : kind.startsOperand) :
    Operator.ofToken? kind = none ∧ kind ≠ .colon ∧ kind ≠ .rightParen ∧ kind ≠ .endOfFile := by
  revert h
  cases kind <;> decide

/-- A tree starts with an operand, and no colon follows the first token of a tree that stands before
    something else than a colon. -/
theorem Tree.exists_yield_eq (t : Tree) : ∀ y ys, Symbol.kind y ≠ .colon →
    ∃ x z zs, t.yield ++ y :: ys = x :: z :: zs ∧ x.kind.startsOperand ∧ z.kind ≠ .colon := by
  refine (Tree.induct (P := fun t => ∀ y ys, Symbol.kind y ≠ .colon →
    ∃ x z zs, t.yield ++ y :: ys = x :: z :: zs ∧ x.kind.startsOperand ∧ z.kind ≠ .colon)
    (Q := fun _ => True) ?_ ?_ ?_ ?_ trivial fun _ _ _ _ _ => trivial).1 t
  · intro l line y ys hy
    refine ⟨_, y, ys, rfl, ?_, hy⟩
    cases hl : l.kind <;> simp [Symbol.kind, LiteralKind.token, TokenKind.startsOperand, hl]
  · intro inner ih y ys hy
    obtain ⟨x, z, zs, heq, hx, -⟩ := ih (.sign .rightParen) (y :: ys) (by simp [Symbol.kind])
    refine ⟨.sign .leftParen, x, z :: zs, ?_, rfl, ?_⟩
    · simp only [Tree.yield, ← heq, List.cons_append, List.append_assoc, List.nil_append]
    · exact (TokenKind.of_startsOperand hx).2.1
  · intro o lhs rhs ihl _ y ys _
    obtain ⟨x, z, zs, heq, hx, hz⟩ := ihl (.sign o.token) (rhs.yield ++ y :: ys) (by
      rcases o with c | c <;> cases c <;> simp [Symbol.kind, Operator.token])
    refine ⟨x, z, zs, ?_, hx, hz⟩
    rw [Tree.yield_join, ← heq, List.append_assoc]
    rfl
  · intro name arguments line _ y ys _
    exact ⟨.name name line, .sign .leftParen, _, rfl, rfl, by simp [Symbol.kind]⟩

theorem Tree.exists_first (t : Tree) : ∃ x xs, t.yield = x :: xs ∧ x.kind.startsOperand := by
  obtain ⟨x, z, zs, heq, hx, -⟩ := t.exists_yield_eq (.sign .rightParen) [] (by simp [Symbol.kind])
  cases hyield : t.yield with
  | nil => simp [hyield] at heq
  | cons x' xs =>
    rw [hyield, List.cons_append] at heq
    obtain ⟨rfl, -⟩ := List.cons.inj heq
    exact ⟨x', xs, rfl, hx⟩

theorem TreeArguments.startsOperand_firstKind_cons (key : Option String) (value : Tree)
    (rest : TreeArguments) : (TreeArguments.cons key value rest).firstKind.startsOperand := by
  cases key with
  | some key => rfl
  | none =>
    obtain ⟨x, xs, hyield, hx⟩ := value.exists_first
    simpa [firstKind, yield, Symbol.ofKey, hyield] using hx

/-- Arguments start with an operand or end at once. -/
theorem TreeArguments.firstKind_cases (a : TreeArguments) :
    a.firstKind = .rightParen ∨ a.firstKind.startsOperand := by
  cases a with
  | nil => exact .inl rfl
  | cons key value rest => exact .inr (startsOperand_firstKind_cons key value rest)

/-- No operator and no colon stands where arguments start. -/
theorem TreeArguments.firstKind_ne (a : TreeArguments) :
    Operator.ofToken? a.firstKind = none ∧ a.firstKind ≠ .colon := by
  rcases a.firstKind_cases with h | h
  · rw [h]
    exact ⟨rfl, by simp⟩
  · obtain ⟨hoperator, hcolon, -⟩ := TokenKind.of_startsOperand h
    exact ⟨hoperator, hcolon⟩

end StageScript
