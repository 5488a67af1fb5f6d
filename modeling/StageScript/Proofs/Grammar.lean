import StageScript.Proofs.Precedence
import StageScript.Proofs.Statements

set_option autoImplicit false

/-! # The grammar of scripts

The grammar says which sequences of kinds of tokens are scripts, without a word on how they are
read: it does not tell a bare word with a group behind it from a call, nor to which of several
guards a jump belongs. `Grammar.Statement ks after` also has what comes after the statement, since
a statement ends without a newline only where the file ends. `Parser.statements_derives` is the
first half of what the parser has to do with it: whatever it accepts is a script. -/

namespace StageScript

namespace Grammar

/-! ## Expressions -/

/-- The kinds of token that stand between two operands. -/
def isInfix : TokenKind → Bool
  | .equal | .notEqual | .less | .lessEqual | .greater | .greaterEqual => true
  | .conjunction | .disjunction => true
  | _ => false

mutual

/-- Operands with operators between them. -/
inductive Expression : List TokenKind → Prop where
  | operand {ks : List TokenKind} (h : Operand ks) : Expression ks
  | operator {ks ls : List TokenKind} {k : TokenKind} (h : Expression ks) (hk : isInfix k)
    (h' : Operand ls) : Expression (ks ++ k :: ls)

/-- A literal, an expression in parentheses or a call. -/
inductive Operand : List TokenKind → Prop where
  | number : Operand [.number]
  | string : Operand [.string]
  | word : Operand [.identifier]
  | group {ks : List TokenKind} (h : Expression ks) : Operand (.leftParen :: ks ++ [.rightParen])
  | call {ks : List TokenKind} (h : CallArguments ks) :
    Operand (.identifier :: .leftParen :: ks ++ [.rightParen])

/-- Any number of expressions, each with or without a key. -/
inductive CallArguments : List TokenKind → Prop where
  | nil : CallArguments []
  | plain {ks ls : List TokenKind} (h : Expression ks) (h' : CallArguments ls) :
    CallArguments (ks ++ ls)
  | keyed {ks ls : List TokenKind} (h : Expression ks) (h' : CallArguments ls) :
    CallArguments (.identifier :: .colon :: ks ++ ls)

end

/-! ## Statements -/

/-- The kinds of token that are values of command arguments. -/
def isValue : TokenKind → Bool
  | .number | .string | .identifier => true
  | _ => false

/-- Any number of values, each with or without a key. -/
inductive CommandArguments : List TokenKind → Prop where
  | nil : CommandArguments []
  | plain {k : TokenKind} {ks : List TokenKind} (hk : isValue k) (h : CommandArguments ks) :
    CommandArguments (k :: ks)
  | keyed {k : TokenKind} {ks : List TokenKind} (hk : isValue k) (h : CommandArguments ks) :
    CommandArguments (.identifier :: .colon :: k :: ks)

/-- The end of a statement: a newline, or nothing before the end of the file. -/
inductive Ending : List TokenKind → List TokenKind → Prop where
  | newline (after : List TokenKind) : Ending [.newline] after
  | endOfFile (after : List TokenKind) : Ending [] (.endOfFile :: after)

/-- Any number of newlines. -/
def newlines (n : Nat) : List TokenKind := List.replicate n .newline

/-- A statement before the given kinds of token. -/
inductive Statement : List TokenKind → List TokenKind → Prop where
  | dialogue {e after : List TokenKind} (he : Ending e after) : Statement (.string :: e) after
  | command {ks e after : List TokenKind} (h : CommandArguments ks) (he : Ending e after) :
    Statement (.identifier :: (ks ++ e)) after
  | conditional {c b after : List TokenKind} (n m : Nat) (hc : Expression c)
    (hb : Statement b (newlines m ++ after)) :
    Statement (.guardMark :: (c ++ (newlines n ++ (b ++ newlines m)))) after
  | jump {c b e after : List TokenKind} (n m : Nat) (hc : Expression c)
    (hb : Statement b (newlines m ++ .arrow :: .identifier :: (e ++ after)))
    (he : Ending e after) :
    Statement (.guardMark :: (c ++ (newlines n ++ (b ++ (newlines m ++
      .arrow :: .identifier :: e))))) after

/-- Newlines and statements up to the end of the file. -/
inductive Script : List TokenKind → Prop where
  | endOfFile : Script [.endOfFile]
  | newline {ks : List TokenKind} (h : Script ks) : Script (.newline :: ks)
  | statement {ks after : List TokenKind} (h : Statement ks after) (h' : Script after) :
    Script (ks ++ after)

/-- Nothing follows the end of the file. -/
theorem Script.eq_nil_of_endOfFile {ks : List TokenKind} (h : Script (.endOfFile :: ks)) :
    ks = [] := by
  generalize hls : TokenKind.endOfFile :: ks = ls at h
  cases h with
  | endOfFile => exact (List.cons.inj hls).2
  | newline => cases hls
  | statement hst => cases hst <;> cases hls

/-! ## What is read is derived -/

theorem isInfix_token (o : Operator) : isInfix o.token := by
  rcases o with c | c <;> cases c <;> rfl

theorem not_isInfix {k : TokenKind} (h : ∀ o, Operator.ofToken? k ≠ some o) : ¬isInfix k := by
  intro hk
  cases k <;> first | (cases hk; done) | exact h _ rfl

theorem Expression.append {ks ls : List TokenKind} {k : TokenKind} (h : Expression ks)
    (hk : isInfix k) : Expression ls → Expression (ks ++ k :: ls)
  | .operand hls => .operator h hk hls
  | .operator hms hk' hls => by
    have := Expression.operator (h.append hk hms) hk' hls
    rwa [List.append_assoc] at this

/-- What a tree yields is an expression, whatever the levels of its operators. -/
theorem expression_yield (t : Tree) : Expression (t.yield.map Symbol.kind) := by
  refine (Tree.induct (P := fun t => Expression (t.yield.map Symbol.kind))
    (Q := fun a => CallArguments (a.yield.map Symbol.kind)) ?_ ?_ ?_ ?_ .nil ?_).1 t
  · intro l line
    obtain ⟨kind, text⟩ := l
    cases kind with
    | number => exact .operand .number
    | string => exact .operand .string
    | word => exact .operand .word
  · intro inner ih
    simp only [Tree.yield, List.map_cons, List.map_append, List.map_nil]
    exact .operand (.group ih)
  · intro o lhs rhs ihl ihr
    rw [Tree.yield_join, List.map_append, List.map_cons]
    exact ihl.append (isInfix_token o) ihr
  · intro name arguments line ih
    simp only [Tree.yield, List.map_cons, List.map_append, List.map_nil]
    exact .operand (.call ih)
  · intro key value rest ihv ihr
    rw [TreeArguments.yield, List.map_append, List.map_append]
    cases key with
    | none =>
      change CallArguments (value.yield.map Symbol.kind ++ _)
      exact .plain ihv ihr
    | some key =>
      change CallArguments (.identifier :: .colon :: (value.yield.map Symbol.kind) ++ _)
      exact .keyed ihv ihr

end Grammar

namespace Stream

/-- The kinds of the tokens between the two streams are such a sequence. -/
def Reads (s : Stream) (P : List TokenKind → Prop) (rest : Stream) : Prop :=
  ∃ us : List Token, s = rest.prepend us ∧ P (us.map Token.kind)

/-- What is left starts with a token of the first of the kinds. -/
def Precedes (rest : Stream) (after : List TokenKind) : Prop :=
  ∃ n, rest.head = .token n ∧ after.head? = some n.kind

theorem Precedes.prepend {rest : Stream} {after : List TokenKind} (h : rest.Precedes after) :
    ∀ us : List Token, (rest.prepend us).Precedes (us.map Token.kind ++ after)
  | [] => h
  | u :: _ => ⟨u, rfl, rfl⟩

theorem Takes.reads {s rest : Stream} {xs : List Symbol} (h : s.Takes xs rest) :
    s.Reads (· = xs.map Symbol.kind) rest := by
  obtain ⟨us, hs, hus⟩ := h
  exact ⟨us, hs, hus.map_kind⟩

theorem reads_dropNewlines (s : Stream) : s.Reads (∃ n, · = Grammar.newlines n) s.dropNewlines := by
  obtain ⟨ns, hns, hs, -⟩ := s.exists_newlines
  exact ⟨ns, hs, ns.length, List.eq_replicate_iff.2 ⟨by simp, by simpa using hns⟩⟩

end Stream

namespace Parser

open Grammar

theorem terminator_derives {s rest : Stream} (h : terminator s = .ok () rest) :
    s.Reads (fun ks => ∀ after, rest.Precedes after → Ending ks after) rest := by
  obtain ⟨t, ht, ⟨hk, rfl⟩ | ⟨hk, rfl⟩⟩ := terminator_eq_ok.1 h
  · refine ⟨[t], Stream.eq_prepend_of_head ht (by simp [hk]), fun after _ => ?_⟩
    rw [List.map_singleton, hk]
    exact .newline after
  · refine ⟨[], rfl, fun after hafter => ?_⟩
    obtain ⟨n, hn, hfirst⟩ := hafter
    rw [ht] at hn
    cases hn
    obtain ⟨ls, rfl⟩ := List.head?_eq_some_iff.1 hfirst
    rw [hk]
    exact .endOfFile ls

theorem isValue_token (k : LiteralKind) : isValue k.token := by
  cases k <;> rfl

theorem ArgumentRead.derives {us : List Token} {key : String} {v : Literal} {ks : List TokenKind}
    (h : ArgumentRead us key v) (hks : CommandArguments ks) :
    CommandArguments (us.map Token.kind ++ ks) := by
  cases h with
  | plain hk =>
    rw [List.map_singleton, hk]
    exact .plain (isValue_token v.kind) hks
  | keyed hword hcolon hk =>
    simp only [List.map_cons, List.map_nil, hword, hcolon, hk]
    exact .keyed (isValue_token v.kind) hks

theorem commandArguments_derives {a b : Arguments} {s rest : Stream}
    (h : commandArguments a s = .ok b rest) : s.Reads CommandArguments rest := by
  rcases commandArguments_eq_ok h with ⟨rfl, rfl, -⟩ |
    ⟨us, key, v, mid, -, rfl, hread, -, -, hmore⟩
  · exact ⟨[], rfl, .nil⟩
  · have hlt := hread.length_lt mid
    obtain ⟨vs, rfl, hvs⟩ := commandArguments_derives hmore
    refine ⟨us ++ vs, Stream.prepend_prepend us vs rest, ?_⟩
    rw [List.map_append]
    exact hread.derives hvs
termination_by s.items.length

/-- What is read as a statement is one before whatever is left. -/
theorem statement_derives {s rest : Stream} {st : Statement} (h : statement s = .ok st rest) :
    s.Reads (fun ks => ∀ after, rest.Precedes after → Grammar.Statement ks after) rest := by
  cases statement_eq_ok.1 h with
  | @dialogue t hhead hk hend =>
    obtain ⟨es, htail, hes⟩ := terminator_derives hend
    refine ⟨t :: es, ?_, fun after hafter => ?_⟩
    · rw [Stream.eq_prepend_of_head hhead (by simp [hk]), htail, Stream.prepend_prepend]
      rfl
    · rw [List.map_cons, hk]
      exact .dialogue (hes after hafter)
  | @command t a mid hhead hk ha hend =>
    obtain ⟨us, htail, hus⟩ := commandArguments_derives ha
    obtain ⟨es, hmore, hes⟩ := terminator_derives hend
    refine ⟨t :: (us ++ es), ?_, fun after hafter => ?_⟩
    · rw [Stream.eq_prepend_of_head hhead (by simp [hk]), htail, hmore, Stream.prepend_prepend,
        Stream.prepend_prepend]
      rfl
    · rw [List.map_cons, List.map_append, hk]
      exact .command hus (hes after hafter)
  | @conditional t c behind start done last body label hhead hk hc hstart hbody hlast hlabel =>
    obtain ⟨-, rfl⟩ := skipNewlines_eq_ok.1 hstart
    obtain ⟨-, rfl⟩ := skipNewlines_eq_ok.1 hlast
    have hlt := Stream.length_tail_of_head hhead (by simp [hk])
    have hlt' := Parsers.advance_whole.tree _ _ c behind hc
    have hle := behind.length_dropNewlines_le
    obtain ⟨cs, htail, hcs⟩ := (treeAt_sound hc).1.reads
    obtain ⟨ns, hbehind, n, hns⟩ := behind.reads_dropNewlines
    obtain ⟨bs, hbs, hbsk⟩ := statement_derives hbody
    obtain ⟨ms, hms, m, hmsk⟩ := done.reads_dropNewlines
    have hcond : Grammar.Expression (cs.map Token.kind) := hcs ▸ expression_yield c
    -- the tokens from the guard up to where a jump can stand
    have hs : s = (done.dropNewlines).prepend (t :: (cs ++ (ns ++ (bs ++ ms)))) := by
      rw [Stream.eq_prepend_of_head hhead (by simp [hk]), htail, hbehind, hbs]
      conv => lhs; rw [hms]
      simp
    obtain ⟨u, hu, huk, -, rfl⟩ | ⟨arrow, word, harrow, harrowk, hword, hwordk, hend, -⟩ :=
      jump_eq_ok.1 hlabel
    · -- what follows the body is what follows the whole, behind some newlines
      refine ⟨_, hs, fun after hafter => ?_⟩
      simp only [List.map_cons, List.map_append, hk, hns, hmsk]
      refine .conditional n m hcond (hbsk _ ?_)
      rw [hms, ← hmsk]
      exact hafter.prepend ms
    · obtain ⟨es, htaken, hes⟩ := terminator_derives hend
      have hopened : done.dropNewlines = rest.prepend (arrow :: word :: es) := by
        rw [Stream.eq_prepend_of_head harrow (by simp [harrowk]),
          Stream.eq_prepend_of_head hword (by simp [hwordk]), htaken]
        simp
      refine ⟨t :: (cs ++ (ns ++ (bs ++ (ms ++ arrow :: word :: es)))), ?_, fun after hafter => ?_⟩
      · rw [hs, hopened]
        simp
      · simp only [List.map_cons, List.map_append, hk, hns, hmsk, harrowk, hwordk]
        refine .jump n m hcond (hbsk _ ?_) (hes after hafter)
        have hprecedes := (hafter.prepend (arrow :: word :: es)).prepend ms
        rw [← hopened, ← hms, hmsk] at hprecedes
        simpa [harrowk, hwordk] using hprecedes
termination_by s.items.length

/-- Newlines and statements are read up to the end of the file. -/
theorem statements_derives {s rest : Stream} {sts : List Statement}
    (h : statements s = .ok sts rest) :
    ∃ e, rest.head = .token e ∧ e.kind = .endOfFile ∧
      s.Reads (fun ks => Script (ks ++ [.endOfFile])) rest := by
  obtain ⟨t, hhead, ⟨hk, htail⟩ | ⟨hk, rfl, rfl⟩ | ⟨-, -, st, mid, more, hst, hmore, rfl⟩⟩ :=
    statements_eq_ok.1 h
  · have hlt := Stream.length_tail_of_head hhead (by simp [hk])
    obtain ⟨e, he, hek, us, hus, hscript⟩ := statements_derives htail
    refine ⟨e, he, hek, t :: us, ?_, ?_⟩
    · rw [Stream.eq_prepend_of_head hhead (by simp [hk]), hus, Stream.prepend_prepend]
      rfl
    · rw [List.map_cons, hk]
      exact .newline hscript
  · exact ⟨t, hhead, hk, [], rfl, .endOfFile⟩
  · have hlt := Parsers.advance_whole.statement _ st mid hst
    obtain ⟨us, hus, hstatement⟩ := statement_derives hst
    obtain ⟨e, he, hek, vs, hvs, hscript⟩ := statements_derives hmore
    refine ⟨e, he, hek, us ++ vs, ?_, ?_⟩
    · rw [hus, hvs, Stream.prepend_prepend]
    · have hprecedes : rest.Precedes [.endOfFile] := ⟨e, he, by rw [hek]; rfl⟩
      have hnext := hprecedes.prepend vs
      rw [← hvs] at hnext
      change Script ((us ++ vs).map Token.kind ++ [.endOfFile])
      rw [List.map_append, List.append_assoc]
      exact .statement (hstatement _ hnext) hscript
termination_by s.items.length

end Parser

end StageScript
