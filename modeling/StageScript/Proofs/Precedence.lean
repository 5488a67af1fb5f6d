import StageScript.Proofs.Layout
import StageScript.Proofs.Recursion

set_option autoImplicit false

/-! # Precedence

What the parser of expressions builds. `treeAt_sound` says of every tree it gives that the tokens
it has taken spell the yield of the tree, that operators are levelled at every depth, and where it
stops; `treeAt_of_spelled` says that it builds every levelled tree whose bare words stand apart from
parentheses when it is given the tokens of its yield. -/

namespace StageScript

/-! ## Symbols that are taken -/

/-- The tokens between the two streams spell the symbols. -/
def Stream.Takes (s : Stream) (xs : List Symbol) (rest : Stream) : Prop :=
  ∃ us, s = rest.prepend us ∧ Spelled us xs

namespace Stream.Takes

theorem refl (s : Stream) : s.Takes [] s := ⟨[], rfl, .nil⟩

theorem trans {s mid rest : Stream} {xs ys : List Symbol} (h : s.Takes xs mid)
    (h' : mid.Takes ys rest) : s.Takes (xs ++ ys) rest := by
  obtain ⟨us, rfl, hus⟩ := h
  obtain ⟨vs, rfl, hvs⟩ := h'
  exact ⟨us ++ vs, prepend_prepend us vs rest, hus.append hvs⟩

theorem of_head {s : Stream} {t : Token} {x : Symbol} (h : s.head = .token t)
    (ht : t.kind ≠ .endOfFile) (hx : t.Spells x) : s.Takes [x] s.tail :=
  ⟨[t], eq_prepend_of_head h ht, .cons hx .nil⟩

theorem exists_head {s rest : Stream} {x : Symbol} {xs : List Symbol} (h : s.Takes (x :: xs) rest) :
    ∃ t, s.head = .token t ∧ t.Spells x := by
  obtain ⟨us, rfl, hus⟩ := h
  obtain ⟨t, ts, rfl, ht, -⟩ := hus.exists_of_cons
  exact ⟨t, rfl, ht⟩

/-- What is read as arguments starts with a token of their first kind. -/
theorem head_kind {s rest : Stream} {a : TreeArguments} {t : Token}
    (h : s.Takes (a.yield ++ [.sign .rightParen]) rest) (ht : s.head = .token t) :
    t.kind = a.firstKind := by
  obtain ⟨y, ys, hys, hfirst⟩ := a.exists_yield_eq
  rw [hys] at h
  obtain ⟨u, hu, hspells⟩ := h.exists_head
  rw [ht] at hu
  cases hu
  rw [hspells.kind_eq, hfirst]

theorem exists_head_arguments {s rest : Stream} {a : TreeArguments}
    (h : s.Takes (a.yield ++ [.sign .rightParen]) rest) : ∃ t, s.head = .token t := by
  obtain ⟨y, ys, hys, -⟩ := a.exists_yield_eq
  rw [hys] at h
  obtain ⟨t, ht, -⟩ := h.exists_head
  exact ⟨t, ht⟩

end Stream.Takes

namespace Parser

/-! ## What is built -/

/-- The tree is levelled, its operators hold their left operands at least as tightly as `power`,
    and what is left starts with a token that does not go on with it. -/
structure TreeRead (power : Nat) (t : Tree) (rest : Stream) : Prop where
  levelled : t.Levelled
  root : ∀ o, t.root? = some o → power ≤ o.powers.1
  stop : ∃ n, rest.head = .token n ∧ t.Apart n.kind ∧
    ∀ o, Operator.ofToken? n.kind = some o → o.powers.1 < power

/-- No operator comes next where all of them are taken. -/
theorem TreeRead.exists_stop {t : Tree} {rest : Stream} (h : TreeRead 0 t rest) :
    ∃ n, rest.head = .token n ∧ t.Apart n.kind ∧ Operator.ofToken? n.kind = none := by
  obtain ⟨n, hn, hapart, hstop⟩ := h.stop
  refine ⟨n, hn, hapart, ?_⟩
  cases ho : Operator.ofToken? n.kind with
  | none => rfl
  | some o => exact absurd (hstop o ho) (Nat.not_lt_zero _)

/-- The tree is an atom, a group or a call, and stands apart from what is left. -/
structure OperandRead (t : Tree) (rest : Stream) : Prop where
  levelled : t.Levelled
  root : t.root? = none
  apart : ∀ n, rest.head = .token n → t.Apart n.kind

/-- The tree can be the left operand of the operator that comes next, if there is one. -/
structure LeftRead (power : Nat) (t : Tree) (rest : Stream) : Prop where
  levelled : t.Levelled
  root : ∀ o, t.root? = some o → power ≤ o.powers.1
  apart : ∀ n, rest.head = .token n → t.Apart n.kind
  next : ∀ n o, rest.head = .token n → Operator.ofToken? n.kind = some o → o.level ≤ t.level

theorem OperandRead.left {t : Tree} {rest : Stream} (h : OperandRead t rest) (power : Nat) :
    LeftRead power t rest where
  levelled := h.levelled
  root o ho := by
    rw [h.root] at ho
    cases ho
  apart := h.apart
  next n o _ _ := by
    rw [Tree.level_of_operand h.root]
    exact Nat.le_of_lt o.level_lt_three

/-- An operator with its right operand makes a new left operand of a left operand. -/
theorem LeftRead.join {power : Nat} {lhs rhs : Tree} {s rest : Stream} {t : Token} {o : Operator}
    (h : LeftRead power lhs s) (ht : s.head = .token t) (ho : Operator.ofToken? t.kind = some o)
    (hpower : ¬o.powers.1 < power) (hrhs : TreeRead o.powers.2 rhs rest) :
    LeftRead power (o.join lhs rhs) rest := by
  obtain ⟨n, hn, hapart, hstop⟩ := hrhs.stop
  have hkind : t.kind = o.token := Operator.ofToken?_eq_some.1 ho
  -- the right operand was read with the power that keeps out operators of the same level
  have hright : o.level < rhs.level := by
    have := o.level_lt_three
    cases hroot : rhs.root? with
    | none =>
      rw [Tree.level_of_operand hroot]
      exact this
    | some other =>
      have hle := hrhs.root other hroot
      rw [Tree.level_of_root hroot]
      exact Nat.lt_of_not_le fun hlevel => by
        have := (Operator.powers_lt_iff other o).2 hlevel
        omega
  refine ⟨?_, ?_, ?_, ?_⟩
  · exact Tree.levelled_join.2 ⟨h.levelled, hrhs.levelled, h.next t o ht ho, hright⟩
  · intro other hother
    rw [Tree.root?_join, Option.some.injEq] at hother
    subst hother
    omega
  · intro m hm
    rw [hn] at hm
    cases hm
    exact Tree.apart_join.2 ⟨hkind ▸ h.apart t ht, hapart⟩
  · intro m other hm hother
    rw [hn] at hm
    cases hm
    rw [Tree.level_join]
    exact (Operator.powers_lt_iff other o).1 (hstop other hother)

theorem argumentKey_takes {s rest : Stream} {key : Option String}
    (h : argumentKey s = .ok key rest) : s.Takes (Symbol.ofKey key) rest := by
  rcases argumentKey_eq_ok h with ⟨rfl, rfl⟩ | ⟨word, colon, rfl, hword, hcolon, rfl⟩
  · exact .refl _
  · exact ⟨[word, colon], rfl, .cons ⟨hword, rfl⟩ (.cons hcolon .nil)⟩

theorem argumentKey_consumes : Consumes 0 argumentKey := by
  intro s key rest h
  rcases argumentKey_eq_ok h with ⟨-, rfl⟩ | ⟨word, colon, -, -, -, rfl⟩
  · exact Nat.le_refl _
  · simp

mutual

theorem treeAt_sound {power : Nat} {s rest : Stream} {t : Tree} (h : treeAt power s = .ok t rest) :
    s.Takes t.yield rest ∧ TreeRead power t rest := by
  rw [treeAt_eq] at h
  obtain ⟨lhs, mid, hlhs, hops⟩ := bind_eq_ok.1 h
  have hlt := Parsers.advance_whole.operand s lhs mid hlhs
  obtain ⟨htakes, hoperand⟩ := operand_sound hlhs
  obtain ⟨ys, hyield, hys, hread⟩ := operators_sound (hoperand.left power) hops
  exact ⟨hyield ▸ htakes.trans hys, hread⟩
termination_by 2 * s.items.length + 2

theorem operand_sound {s rest : Stream} {t : Tree} (h : operand s = .ok t rest) :
    s.Takes t.yield rest ∧ OperandRead t rest := by
  rw [operand_eq] at h
  obtain ⟨u, mid, hu, hmid⟩ := bind_eq_ok.1 h
  obtain ⟨hhead, rfl⟩ := next_eq_ok.1 hu
  cases hk : u.kind
  case number =>
    rw [hk] at hmid
    obtain ⟨rfl, rfl⟩ := pure_eq_ok.1 hmid
    exact ⟨.of_head hhead (by simp [hk]) ⟨hk, rfl, rfl⟩, trivial, rfl,
      fun n _ => by simp [Literal.number]⟩
  case string =>
    rw [hk] at hmid
    obtain ⟨rfl, rfl⟩ := pure_eq_ok.1 hmid
    exact ⟨.of_head hhead (by simp [hk]) ⟨hk, rfl, rfl⟩, trivial, rfl,
      fun n _ => by simp [Literal.string]⟩
  case identifier =>
    rw [hk] at hmid
    have hlt := Stream.length_tail_of_head hhead (by simp [hk])
    obtain ⟨x, xs, hyield, hx, hxs, hread⟩ := wordOperand_sound hk hmid
    have hword : s.Takes [x] s.tail := .of_head hhead (by simp [hk]) hx
    exact ⟨hyield ▸ hword.trans hxs, hread⟩
  case leftParen =>
    rw [hk] at hmid
    have hlt := Stream.length_tail_of_head hhead (by simp [hk])
    obtain ⟨inner, close, hinner, hclose⟩ := bind_eq_ok.1 hmid
    obtain ⟨v, last, hv, hlast⟩ := bind_eq_ok.1 hclose
    obtain ⟨hvhead, hvk, rfl⟩ := expect_eq_ok.1 hv
    obtain ⟨rfl, rfl⟩ := pure_eq_ok.1 hlast
    obtain ⟨htakes, hread⟩ := treeAt_sound hinner
    -- the token before which the inner expression has stopped is the closing parenthesis
    obtain ⟨n, hn, hapart, -⟩ := hread.stop
    rw [hvhead] at hn
    cases hn
    have hopen : s.Takes [.sign .leftParen] s.tail := .of_head hhead (by simp [hk]) hk
    have hend : close.Takes [.sign .rightParen] close.tail := .of_head hvhead (by simp [hvk]) hvk
    refine ⟨hopen.trans (htakes.trans hend), hread.levelled, rfl, fun m _ => ?_⟩
    rw [hvk] at hapart
    exact Tree.apart_group.2 hapart
  all_goals
    rw [hk] at hmid
    exact absurd hmid fail_ne_ok
termination_by 2 * s.items.length + 1

theorem wordOperand_sound {w : Token} {s rest : Stream} {t : Tree} (hw : w.kind = .identifier)
    (h : wordOperand w s = .ok t rest) :
    ∃ x xs, t.yield = x :: xs ∧ w.Spells x ∧ s.Takes xs rest ∧ OperandRead t rest := by
  rw [wordOperand_eq] at h
  obtain ⟨taken, mid, htaken, hmid⟩ := bind_eq_ok.1 h
  cases taken with
  | true =>
    obtain ⟨u, hhead, hk, rfl⟩ := eat_eq_true.1 htaken
    have hlt := Stream.length_tail_of_head hhead (by simp [hk])
    obtain ⟨a, last, ha, hlast⟩ := bind_eq_ok.1 hmid
    obtain ⟨rfl, rfl⟩ := pure_eq_ok.1 hlast
    obtain ⟨htakes, hlevelled, hapart⟩ := callArguments_sound ha
    have hopen : s.Takes [.sign .leftParen] s.tail := .of_head hhead (by simp [hk]) hk
    exact ⟨_, _, rfl, ⟨hw, rfl, rfl⟩, hopen.trans htakes, hlevelled, rfl,
      fun n _ => Tree.apart_call.2 hapart⟩
  | false =>
    obtain ⟨u, hhead, hk, rfl⟩ := eat_eq_false.1 htaken
    obtain ⟨rfl, rfl⟩ := pure_eq_ok.1 hmid
    refine ⟨_, _, rfl, ⟨hw, rfl, rfl⟩, .refl _, trivial, rfl, fun n hn => ?_⟩
    rw [hhead] at hn
    cases hn
    -- the word stays bare because no parenthesis follows
    exact Tree.apart_atom.2 fun _ => hk
termination_by 2 * s.items.length + 2

theorem callArguments_sound {s rest : Stream} {a : TreeArguments}
    (h : callArguments s = .ok a rest) :
    s.Takes (a.yield ++ [.sign .rightParen]) rest ∧ a.Levelled ∧ a.Apart := by
  cases hhead : s.head with
  | error e =>
    rw [callArguments_eq, bind_of_error (peek_of_error hhead)] at h
    cases h
  | token u =>
    rw [callArguments_of_token hhead] at h
    split at h
    · next hk =>
      cases h
      exact ⟨.of_head hhead (by simp [hk]) hk, trivial, TreeArguments.apart_nil⟩
    split at h
    · cases h
    obtain ⟨key, start, hkey, hstart⟩ := bind_eq_ok.1 h
    obtain ⟨value, more, hvalue, hmore⟩ := bind_eq_ok.1 hstart
    obtain ⟨others, last, hothers, hlast⟩ := bind_eq_ok.1 hmore
    obtain ⟨rfl, rfl⟩ := pure_eq_ok.1 hlast
    have hstart' := argumentKey_takes hkey
    have hle := argumentKey_consumes s key start hkey
    have hlt := Parsers.advance_whole.tree _ _ value more hvalue
    obtain ⟨htakes, hread⟩ := treeAt_sound hvalue
    obtain ⟨htakes', hlevelled', hapart'⟩ := callArguments_sound hothers
    obtain ⟨n, hn, hapart, -⟩ := hread.stop
    have hfirst : n.kind = others.firstKind := htakes'.head_kind hn
    refine ⟨?_, ⟨hread.levelled, hlevelled'⟩, ?_⟩
    · rw [TreeArguments.yield, List.append_assoc, List.append_assoc]
      exact hstart'.trans (htakes.trans htakes')
    · exact TreeArguments.apart_cons.2 ⟨hfirst ▸ hapart, hapart'⟩
termination_by 2 * s.items.length + 3

theorem operators_sound {power : Nat} {lhs t : Tree} {s rest : Stream}
    (hlhs : LeftRead power lhs s) (h : operators power lhs s = .ok t rest) :
    ∃ ys, t.yield = lhs.yield ++ ys ∧ s.Takes ys rest ∧ TreeRead power t rest := by
  rw [operators_eq] at h
  obtain ⟨u, mid, hu, hmid⟩ := bind_eq_ok.1 h
  obtain ⟨hhead, rfl⟩ := peek_eq_ok.1 hu
  cases ho : Operator.ofToken? u.kind with
  | none =>
    rw [ho] at hmid
    obtain ⟨rfl, rfl⟩ := pure_eq_ok.1 hmid
    refine ⟨[], by simp, .refl _, hlhs.levelled, hlhs.root, u, hhead, hlhs.apart u hhead, ?_⟩
    intro o ho'
    rw [ho] at ho'
    cases ho'
  | some o =>
    rw [ho] at hmid
    dsimp only at hmid
    have hkind : u.kind = o.token := Operator.ofToken?_eq_some.1 ho
    have hk : u.kind ≠ .endOfFile := by
      intro hk
      rw [hk] at ho
      cases ho
    have hlt := Stream.length_tail_of_head hhead hk
    split at hmid
    · next hpower =>
      obtain ⟨rfl, rfl⟩ := pure_eq_ok.1 hmid
      refine ⟨[], by simp, .refl _, hlhs.levelled, hlhs.root, u, hhead, hlhs.apart u hhead, ?_⟩
      intro o' ho'
      rw [ho] at ho'
      cases ho'
      exact hpower
    · next hpower =>
      obtain ⟨v, right, hv, hright⟩ := bind_eq_ok.1 hmid
      obtain ⟨-, rfl⟩ := next_eq_ok.1 hv
      obtain ⟨rhs, more, hrhs, hmore⟩ := bind_eq_ok.1 hright
      have hlt' := Parsers.advance_whole.tree _ _ rhs more hrhs
      obtain ⟨htakes, hread⟩ := treeAt_sound hrhs
      obtain ⟨ys, hyield, hys, hread'⟩ :=
        operators_sound (hlhs.join hhead ho hpower hread) hmore
      have hsign : mid.Takes [.sign o.token] mid.tail := .of_head hhead hk hkind
      refine ⟨.sign o.token :: rhs.yield ++ ys, ?_, (hsign.trans htakes).trans hys, hread'⟩
      rw [hyield, Tree.yield_join, List.append_assoc]
termination_by 2 * s.items.length + 1

end

/-! ## What is built from the tokens of a tree -/

/-- A tree that has been read can be the left operand of whatever comes next. -/
theorem TreeRead.left {power : Nat} {t : Tree} {rest : Stream} (h : TreeRead power t rest) :
    LeftRead power t rest := by
  obtain ⟨n, hn, hapart, hstop⟩ := h.stop
  refine ⟨h.levelled, h.root, fun m hm => ?_, fun m o hm ho => ?_⟩
  · rw [hn] at hm
    cases hm
    exact hapart
  · rw [hn] at hm
    cases hm
    cases hroot : t.root? with
    | none =>
      rw [Tree.level_of_operand hroot]
      exact Nat.le_of_lt o.level_lt_three
    | some other =>
      rw [Tree.level_of_root hroot]
      have := h.root other hroot
      have := hstop o ho
      exact (Operator.powers_le_iff o other).1 (by omega)

/-- What is said of a tree by induction: the tokens of its yield are read as the tree, which is then
    the left operand of what comes next. -/
def ReadBack (t : Tree) : Prop :=
  ∀ power us rest n, LeftRead power t rest → rest.head = .token n → Spelled us t.yield →
    treeAt power (rest.prepend us) = operators power t rest

/-- The same of arguments. -/
def ArgumentsReadBack (a : TreeArguments) : Prop :=
  ∀ us rest, a.Levelled → a.Apart → Spelled us (a.yield ++ [.sign .rightParen]) →
    callArguments (rest.prepend us) = .ok a rest

theorem ReadBack.treeAt_eq_ok {t : Tree} (ht : ReadBack t) {power : Nat} {us : List Token}
    {rest : Stream} (h : TreeRead power t rest) (hus : Spelled us t.yield) :
    treeAt power (rest.prepend us) = .ok t rest := by
  obtain ⟨n, hn, -, hstop⟩ := h.stop
  rw [ht power us rest n h.left hn hus]
  exact operators_of_stop hn hstop

theorem treeAt_of_operand {power : Nat} {t : Tree} {s rest : Stream}
    (h : operand s = .ok t rest) : treeAt power s = operators power t rest := by
  rw [treeAt_eq, bind_of_ok h]

theorem readBack_atom (l : Literal) (line : Nat) : ReadBack (.atom l line) := by
  intro power us rest n hleft hn hus
  obtain ⟨u, rfl, hk, htext, hline⟩ := hus.eq_singleton
  refine treeAt_of_operand ?_
  rw [operand_eq, bind_of_ok (next_of_token (Stream.head_prepend_cons u [] rest))]
  obtain ⟨kind, text⟩ := l
  change u.text = text at htext
  subst htext hline
  cases kind with
  | number =>
    rw [hk]
    rfl
  | string =>
    rw [hk]
    rfl
  | word =>
    rw [hk]
    exact wordOperand_of_not_paren hn (Tree.apart_atom.1 (hleft.apart n hn) rfl)

theorem readBack_group {inner : Tree} (ih : ReadBack inner) : ReadBack (.group inner) := by
  intro power us rest n hleft hn hus
  obtain ⟨u, us, rfl, hu, hopened⟩ := hus.exists_of_cons
  obtain ⟨is, vs, rfl, his, hvs⟩ := hopened.exists_of_append
  obtain ⟨v, rfl, hv⟩ := hvs.eq_singleton
  change u.kind = .leftParen at hu
  change v.kind = .rightParen at hv
  have hread : TreeRead 0 inner (rest.prepend [v]) := by
    refine ⟨hleft.levelled, fun _ _ => Nat.zero_le _, v, rfl, ?_, fun o ho => ?_⟩
    · rw [hv]
      exact Tree.apart_group.1 (hleft.apart n hn)
    · rw [hv] at ho
      cases ho
  have hinner := ih.treeAt_eq_ok hread his
  rw [Stream.prepend_prepend] at hinner
  refine treeAt_of_operand ?_
  rw [operand_of_paren (Stream.head_prepend_cons u _ rest) hu, Stream.tail_prepend_cons,
    bind_of_ok hinner,
    bind_of_ok (expect_eq_ok.2 ⟨Stream.head_prepend_cons v [] rest, hv, rfl⟩)]
  rfl

theorem readBack_join {o : Operator} {lhs rhs : Tree} (ihl : ReadBack lhs) (ihr : ReadBack rhs) :
    ReadBack (o.join lhs rhs) := by
  intro power us rest n hleft hn hus
  rw [Tree.yield_join] at hus
  obtain ⟨ls, us, rfl, hls, hright⟩ := hus.exists_of_append
  obtain ⟨u, rs, rfl, hu, hrs⟩ := hright.exists_of_cons
  change u.kind = o.token at hu
  have ho : Operator.ofToken? u.kind = some o := Operator.ofToken?_eq_some.2 hu
  obtain ⟨hlevelledl, hlevelledr, hlevel, hlevel'⟩ := Tree.levelled_join.1 hleft.levelled
  obtain ⟨hapartl, hapartr⟩ := Tree.apart_join.1 (hleft.apart n hn)
  have hpower : power ≤ o.powers.1 := hleft.root o (Tree.root?_join o lhs rhs)
  -- the left operand is read up to the operator, the right operand up to what follows the tree
  have hlhs : LeftRead power lhs (rest.prepend (u :: rs)) := by
    refine ⟨hlevelledl, fun other hother => ?_, fun m hm => ?_, fun m other hm hother => ?_⟩
    · rw [Tree.level_of_root hother] at hlevel
      have := (Operator.powers_le_iff o other).2 hlevel
      omega
    · cases hm
      rw [hu]
      exact hapartl
    · cases hm
      rw [ho] at hother
      cases hother
      exact hlevel
  have hrhs : TreeRead o.powers.2 rhs rest := by
    refine ⟨hlevelledr, fun other hother => ?_, n, hn, hapartr, fun other hother => ?_⟩
    · rw [Tree.level_of_root hother] at hlevel'
      have := (Operator.powers_lt_iff other o).not.2 (by omega)
      omega
    · have := hleft.next n other hn hother
      rw [Tree.level_join] at this
      exact (Operator.powers_lt_iff other o).2 this
  rw [← Stream.prepend_prepend, ihl power ls _ u hlhs rfl hls,
    operators_of_operator (Stream.head_prepend_cons u rs rest) ho hpower, Stream.tail_prepend_cons,
    bind_of_ok (ihr.treeAt_eq_ok hrhs hrs)]

theorem readBack_call {name : String} {arguments : TreeArguments} {line : Nat}
    (ih : ArgumentsReadBack arguments) : ReadBack (.call name arguments line) := by
  intro power us rest n hleft hn hus
  obtain ⟨u, us, rfl, ⟨hk, rfl, rfl⟩, hopened⟩ := hus.exists_of_cons
  obtain ⟨v, vs, rfl, hv, hvs⟩ := hopened.exists_of_cons
  change v.kind = .leftParen at hv
  have harguments := ih vs rest hleft.levelled (Tree.apart_call.1 (hleft.apart n hn)) hvs
  refine treeAt_of_operand ?_
  rw [operand_of_word (Stream.head_prepend_cons u _ rest) hk, Stream.tail_prepend_cons,
    wordOperand_of_paren (Stream.head_prepend_cons v vs rest) hv, Stream.tail_prepend_cons,
    bind_of_ok harguments]
  rfl

theorem argumentsReadBack_nil : ArgumentsReadBack .nil := by
  intro us rest _ _ hus
  obtain ⟨u, rfl, hu⟩ := hus.eq_singleton
  change u.kind = .rightParen at hu
  rw [callArguments_of_token (Stream.head_prepend_cons u [] rest), if_pos hu]
  rfl

/-- A key is taken off in front of the value it belongs to, and nothing else is. -/
theorem argumentKey_of_spelled (rest : Stream) {key : Option String} {value : Tree} {y : Symbol}
    {ys : List Symbol} (hy : y.kind ≠ .colon) {ks vs : List Token}
    (hks : Spelled ks (Symbol.ofKey key)) (hvs : Spelled vs (value.yield ++ y :: ys)) :
    argumentKey ((rest.prepend vs).prepend ks) = .ok key (rest.prepend vs) := by
  cases key with
  | some key =>
    obtain ⟨word, cs, rfl, ⟨hword, rfl⟩, hcs⟩ := hks.exists_of_cons
    obtain ⟨colon, rfl, hcolon⟩ := hcs.eq_singleton
    exact argumentKey_of_colon hword hcolon
  | none =>
    cases hks
    obtain ⟨x, z, zs, heq, -, hz⟩ := value.exists_yield_eq y ys hy
    rw [heq] at hvs
    obtain ⟨u, us, rfl, -, hus⟩ := hvs.exists_of_cons
    obtain ⟨v, vs, rfl, hv, -⟩ := hus.exists_of_cons
    refine argumentKey_of_not_colon fun word colon _ _ hsecond => ?_
    cases hsecond
    rw [hv.kind_eq]
    exact hz

theorem argumentsReadBack_cons {key : Option String} {value : Tree} {others : TreeArguments}
    (ih : ReadBack value) (ihs : ArgumentsReadBack others) :
    ArgumentsReadBack (.cons key value others) := by
  intro us rest hlevelled hapart hus
  obtain ⟨hvalue, hothers⟩ := TreeArguments.apart_cons.1 hapart
  have htakes : (rest.prepend us).Takes (_ ++ [.sign .rightParen]) rest := ⟨us, rfl, hus⟩
  obtain ⟨t, ht⟩ := htakes.exists_head_arguments
  have hstart := TreeArguments.startsOperand_firstKind_cons key value others
  rw [← htakes.head_kind ht] at hstart
  obtain ⟨-, -, hclose, hend⟩ := TokenKind.of_startsOperand hstart
  rw [callArguments_of_token ht, if_neg hclose, if_neg hend]
  -- the tokens fall into those of the key, of the value and of the other arguments
  rw [TreeArguments.yield, List.append_assoc, List.append_assoc] at hus
  obtain ⟨ks, ws, rfl, hks, hws⟩ := hus.exists_of_append
  obtain ⟨y, ys, hys, hfirst⟩ := others.exists_yield_eq
  have hws' := hws
  rw [hys] at hws'
  obtain ⟨vs, os, rfl, hvs, hos⟩ := hws.exists_of_append
  have hmid : (rest.prepend os).Takes (others.yield ++ [.sign .rightParen]) rest := ⟨os, rfl, hos⟩
  obtain ⟨n, hn⟩ := hmid.exists_head_arguments
  have hread : TreeRead 0 value (rest.prepend os) := by
    refine ⟨hlevelled.1, fun _ _ => Nat.zero_le _, n, hn, ?_, fun o ho => ?_⟩
    · rw [hmid.head_kind hn]
      exact hvalue
    · rw [hmid.head_kind hn, others.firstKind_ne.1] at ho
      cases ho
  have hkey := argumentKey_of_spelled rest (hfirst ▸ others.firstKind_ne.2) hks hws'
  have hval := ih.treeAt_eq_ok hread hvs
  rw [Stream.prepend_prepend] at hval
  rw [← Stream.prepend_prepend, bind_of_ok hkey, bind_of_ok hval,
    bind_of_ok (ihs os rest hlevelled.2 hothers hos)]
  rfl

/-- Every tree is read back from the tokens of its yield. -/
theorem readBack (t : Tree) : ReadBack t :=
  (Tree.induct readBack_atom (fun _ => readBack_group) (fun _ _ _ => readBack_join)
    (fun _ _ _ => readBack_call) argumentsReadBack_nil
    fun _ _ _ => argumentsReadBack_cons).1 t

/-- The tokens that spell a levelled tree with its bare words apart are read as that tree. -/
theorem treeAt_of_spelled {t : Tree} {rest : Stream} {n : Token} {us : List Token}
    (hus : Spelled us t.yield) (hlevelled : t.Levelled) (hn : rest.head = .token n)
    (hapart : t.Apart n.kind) (hoperator : Operator.ofToken? n.kind = none) :
    treeAt 0 (rest.prepend us) = .ok t rest := by
  refine (readBack t).treeAt_eq_ok ⟨hlevelled, fun _ _ => Nat.zero_le _, n, hn, hapart, ?_⟩ hus
  intro o ho
  rw [hoperator] at ho
  cases ho

/-- At most one levelled tree with its bare words apart is spelled by the same tokens. -/
theorem eq_of_spelled {t t' : Tree} {us : List Token} (hus : Spelled us t.yield)
    (hus' : Spelled us t'.yield) (hlevelled : t.Levelled) (hlevelled' : t'.Levelled)
    (hapart : WordsApart t.yield) (hapart' : WordsApart t'.yield) : t = t' := by
  -- both are read from the tokens alone, with the end of the file behind them
  let fin : Stream := ⟨[], Span.between 0 0, 1⟩
  have hfin : fin.head = .token fin.finish := rfl
  have h := treeAt_of_spelled hus hlevelled hfin (hapart.append_sign (by decide)) rfl
  have h' := treeAt_of_spelled hus' hlevelled' hfin (hapart'.append_sign (by decide)) rfl
  rw [h] at h'
  exact (Reply.ok.inj h').1

/-- **Precedence.** Whatever is read as an expression unfolds to the one tree that is spelled by the
    tokens taken, holds its operands by the levels of its operators, and lets no parenthesis follow
    a bare word; and reading stops before a token that is no operator. -/
theorem expression_precedence {s rest : Stream} {e : Expression} (h : expression s = .ok e rest) :
    ∃ t taken next, e = .ofTree t ∧ e.tree? = some t ∧ s = rest.prepend taken ∧
      Spelled taken t.yield ∧ rest.head = .token next ∧ Operator.ofToken? next.kind = none ∧
      t.Levelled ∧ WordsApart (t.yield ++ [.sign next.kind]) ∧
      ∀ t', Spelled taken t'.yield → t'.Levelled → WordsApart t'.yield → t' = t := by
  rw [expression_eq] at h
  obtain ⟨t, mid, ht, hmid⟩ := bind_eq_ok.1 h
  obtain ⟨rfl, rfl⟩ := pure_eq_ok.1 hmid
  obtain ⟨⟨taken, hs, htaken⟩, hlevelled, -, next, hnext, hapart, hstop⟩ := treeAt_sound ht
  refine ⟨t, taken, next, rfl, Expression.tree?_ofTree t, hs, htaken, hnext, ?_, hlevelled, hapart,
    fun t' htaken' hlevelled' hapart' => ?_⟩
  · cases ho : Operator.ofToken? next.kind with
    | none => rfl
    | some o => exact absurd (hstop o ho) (Nat.not_lt_zero _)
  · exact eq_of_spelled htaken' htaken hlevelled' hlevelled hapart' hapart.of_append

/-- All three levels, a call with a key, and a group for an operand. -/
theorem expression_precedence_levels :
    ∃ e rest, expression (Stream.ofString "合計（数：１）＝２ または b かつ (c)\n") = .ok e rest ∧
      ∃ t taken next, e = .ofTree t ∧ e.tree? = some t ∧
        Stream.ofString "合計（数：１）＝２ または b かつ (c)\n" = rest.prepend taken ∧
        Spelled taken t.yield ∧ rest.head = .token next ∧ Operator.ofToken? next.kind = none ∧
        t.Levelled ∧ WordsApart (t.yield ++ [.sign next.kind]) ∧
        ∀ t', Spelled taken t'.yield → t'.Levelled → WordsApart t'.yield → t' = t := by
  have hok : (expression (Stream.ofString "合計（数：１）＝２ または b かつ (c)\n")).isOk = true := by
    decide +kernel
  obtain ⟨e, rest, h⟩ := Reply.exists_of_isOk hok
  exact ⟨e, rest, h, expression_precedence h⟩

end Parser

end StageScript
