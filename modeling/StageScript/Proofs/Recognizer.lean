import StageScript.Proofs.Grammar

set_option autoImplicit false

/-! # A recognizer of scripts

A machine that reads the kinds of tokens one by one and is stuck at the first one with which no
script goes on. Its states remember what a reader of scripts has to: the parentheses that are open
and the number of guards that can still take a jump. From every state but the last a script can be
completed (`run_completion`), and every script of the grammar is read to its end
(`run_of_script`), although the machine decides at once what the grammar leaves open. -/

namespace StageScript.Recognizer

/-! ## States -/

/-- What an opening parenthesis belongs to. -/
inductive Frame where
  | group
  | call

/-- Where the next token stands in an expression. -/
inductive Mode where
  /-- An operand has to come. -/
  | operand
  /-- Behind the opening parenthesis of a call. -/
  | opened
  /-- Behind an operand. -/
  | complete
  /-- Behind a word, which a parenthesis makes the name of a call. -/
  | word
  /-- Behind the word with which an argument of a call starts, which a colon makes a key. -/
  | argumentWord

/-- What has been read so far. `guards` is the number of guards around the statement. -/
inductive State where
  /-- Behind a statement, some of whose guards can still take a jump. -/
  | between (guards : Nat)
  | condition (guards : Nat) (frames : List Frame) (mode : Mode)
  /-- Behind a condition, before the statement that stands under it. -/
  | body (guards : Nat)
  /-- Before the end of a statement. -/
  | ending (guards : Nat)
  | arguments (guards : Nat)
  /-- Behind a word among the arguments of a command. -/
  | argumentWord (guards : Nat)
  /-- Behind a key and its colon. -/
  | argumentValue (guards : Nat)
  /-- Behind an arrow. -/
  | label (guards : Nat)
  | accepted

/-! ## Steps -/

/-- The first token of a statement. -/
def startStep (guards : Nat) : TokenKind → Option State
  | .string => some (.ending guards)
  | .identifier => some (.arguments guards)
  | .guardMark => some (.condition (guards + 1) [] .operand)
  | _ => none

def bodyStep (guards : Nat) : TokenKind → Option State
  | .newline => some (.body guards)
  | k => startStep guards k

def endingStep (guards : Nat) : TokenKind → Option State
  | .newline => some (.between guards)
  | .endOfFile => some .accepted
  | _ => none

def argumentsStep (guards : Nat) : TokenKind → Option State
  | .number | .string => some (.arguments guards)
  | .identifier => some (.argumentWord guards)
  | k => endingStep guards k

/-- The first token of an operand; `afterWord` is the mode behind a word. -/
def operandStep (guards : Nat) (frames : List Frame) (afterWord : Mode) : TokenKind → Option State
  | .number | .string => some (.condition guards frames .complete)
  | .identifier => some (.condition guards frames afterWord)
  | .leftParen => some (.condition guards (.group :: frames) .operand)
  | _ => none

/-- The first token of an argument of a call, or the closing parenthesis. -/
def argumentStep (guards : Nat) (frames : List Frame) : TokenKind → Option State
  | .rightParen => some (.condition guards frames.tail .complete)
  | k => operandStep guards frames .argumentWord k

/-- The token behind an operand: an operator, or whatever goes on with what is around the
    expression. -/
def completeStep (guards : Nat) (frames : List Frame) (k : TokenKind) : Option State :=
  if Grammar.isInfix k then some (.condition guards frames .operand)
  else
    match frames with
    | [] => bodyStep guards k
    | .group :: frames =>
      if k = .rightParen then some (.condition guards frames .complete) else none
    | .call :: _ => argumentStep guards frames k

/-- The state behind a token. -/
def step : State → TokenKind → Option State
  | .between guards, .newline => some (.between guards)
  | .between _, .endOfFile => some .accepted
  | .between (guards + 1), .arrow => some (.label guards)
  | .between _, k => startStep 0 k
  | .condition guards frames .operand, k => operandStep guards frames .word k
  | .condition guards frames .opened, k => argumentStep guards frames k
  | .condition guards frames .complete, k => completeStep guards frames k
  | .condition guards frames .word, .leftParen => some (.condition guards (.call :: frames) .opened)
  | .condition guards frames .word, k => completeStep guards frames k
  | .condition guards frames .argumentWord, .leftParen =>
    some (.condition guards (.call :: frames) .opened)
  | .condition guards frames .argumentWord, .colon => some (.condition guards frames .operand)
  | .condition guards frames .argumentWord, k => completeStep guards frames k
  | .body guards, k => bodyStep guards k
  | .ending guards, k => endingStep guards k
  | .arguments guards, k => argumentsStep guards k
  | .argumentWord guards, .colon => some (.argumentValue guards)
  | .argumentWord guards, k => argumentsStep guards k
  | .argumentValue guards, k => if Grammar.isValue k then some (.arguments guards) else none
  | .label guards, k => if k = .identifier then some (.ending guards) else none
  | .accepted, _ => none

/-- The state behind some tokens. -/
def run : State → List TokenKind → Option State
  | q, [] => some q
  | q, k :: ks => (step q k).bind (run · ks)

theorem run_cons_of_step {q r : State} {k : TokenKind} {ks : List TokenKind}
    (h : step q k = some r) : run q (k :: ks) = run r ks := by
  rw [run, h, Option.bind_some]

theorem run_append (q : State) (ks ls : List TokenKind) :
    run q (ks ++ ls) = (run q ks).bind (run · ls) := by
  induction ks generalizing q with
  | nil => rfl
  | cons k ks ih =>
    rw [List.cons_append, run, run]
    cases step q k with
    | none => rfl
    | some r => exact ih r

theorem run_append_of_run {q r : State} {ks ls : List TokenKind} (h : run q ks = some r) :
    run q (ks ++ ls) = run r ls := by
  rw [run_append, h, Option.bind_some]

/-! ## Completion -/

/-- The mode is one behind an operand. -/
def Mode.IsBehind : Mode → Prop
  | complete | word | argumentWord => True
  | operand | opened => False

theorem step_word {guards : Nat} {frames : List Frame} {k : TokenKind} (h : k ≠ .leftParen) :
    step (.condition guards frames .word) k = step (.condition guards frames .complete) k := by
  cases k <;> first | exact absurd rfl h | rfl

theorem step_argumentWord {guards : Nat} {frames : List Frame} {k : TokenKind}
    (h : k ≠ .leftParen) (h' : k ≠ .colon) :
    step (.condition guards frames .argumentWord) k =
      step (.condition guards frames .complete) k := by
  cases k <;> first | exact absurd rfl h | exact absurd rfl h' | rfl

/-- Behind an operand only a parenthesis or a colon can tell words from other operands. -/
theorem step_behind {guards : Nat} {frames : List Frame} {mode : Mode} {k : TokenKind}
    (hmode : mode.IsBehind) (h : k ≠ .leftParen) (h' : k ≠ .colon) :
    step (.condition guards frames mode) k = step (.condition guards frames .complete) k := by
  cases mode with
  | complete => rfl
  | word => exact step_word h
  | argumentWord => exact step_argumentWord h h'
  | operand => exact hmode.elim
  | opened => exact hmode.elim

/-- A closing parenthesis takes the innermost frame away. -/
theorem step_close {guards : Nat} {frame : Frame} {frames : List Frame} :
    step (.condition guards (frame :: frames) .complete) .rightParen =
      some (.condition guards frames .complete) := by
  cases frame <;> rfl

/-- Tokens behind which a script can end. -/
def completion : State → List TokenKind
  | .between _ | .ending _ | .arguments _ | .argumentWord _ | .accepted => []
  | .argumentValue _ => [.number]
  | .label _ => [.identifier]
  | .body _ => [.string]
  | .condition _ frames mode =>
    (match mode with
      | .operand | .opened => [.number]
      | .complete | .word | .argumentWord => []) ++
    (frames.map (fun _ => .rightParen) ++ [.string])

theorem endOfFile_notMem_completion (q : State) : .endOfFile ∉ completion q := by
  cases q with
  | condition guards frames mode => cases mode <;> simp [completion]
  | _ => simp [completion]

theorem run_closing (guards : Nat) (frames : List Frame) :
    run (.condition guards frames .complete) (frames.map (fun _ => .rightParen) ++ [.string]) =
      some (.ending guards) := by
  induction frames with
  | nil => rfl
  | cons frame frames ih =>
    rw [List.map_cons, List.cons_append, run_cons_of_step step_close]
    exact ih

/-- **Every state can be completed to a script.** -/
theorem run_completion {q : State} (hq : q ≠ .accepted) :
    run q (completion q ++ [.endOfFile]) = some .accepted := by
  cases q with
  | accepted => exact absurd rfl hq
  | condition guards frames mode =>
    rw [run_append_of_run (r := .ending guards)]
    · rfl
    -- behind an operand only the parentheses are left to close
    have hbehind : mode.IsBehind →
        run (.condition guards frames mode) (frames.map (fun _ => .rightParen) ++ [.string]) =
          some (.ending guards) := by
      intro hmode
      rw [← run_closing guards frames]
      cases frames with
      | nil => rw [List.map_nil, List.nil_append, run, run, step_behind hmode (by simp) (by simp)]
      | cons frame frames =>
        rw [List.map_cons, List.cons_append, run, run, step_behind hmode (by simp) (by simp)]
    cases mode with
    | operand => exact (run_cons_of_step rfl).trans (run_closing guards frames)
    | opened => exact (run_cons_of_step rfl).trans (run_closing guards frames)
    | complete => exact hbehind trivial
    | word => exact hbehind trivial
    | argumentWord => exact hbehind trivial
  | _ => rfl

/-! ## Expressions of the grammar -/

/-- An expression can start here: where an operand has to come, or at an argument of a call. -/
def Opens (frames : List Frame) (mode : Mode) : Prop :=
  mode = .operand ∨ ∃ outer, frames = .call :: outer

section Steps

variable {guards : Nat} {frames : List Frame} {mode : Mode} {k : TokenKind}

theorem step_literal (h : Opens frames mode) (hk : k = .number ∨ k = .string) :
    step (.condition guards frames mode) k = some (.condition guards frames .complete) := by
  rcases h with rfl | ⟨outer, rfl⟩
  · rcases hk with rfl | rfl <;> rfl
  · rcases hk with rfl | rfl <;> cases mode <;> rfl

/-- The word with which an argument of a call starts can be its key. -/
theorem step_argumentStart {outer : List Frame} (h : mode ≠ .operand) :
    step (.condition guards (.call :: outer) mode) .identifier =
      some (.condition guards (.call :: outer) .argumentWord) := by
  cases mode <;> first | exact absurd rfl h | rfl

theorem step_identifier (h : Opens frames mode) :
    ∃ behind, (behind = .word ∨ behind = .argumentWord) ∧
      step (.condition guards frames mode) .identifier =
        some (.condition guards frames behind) := by
  by_cases hmode : mode = .operand
  · subst hmode
    exact ⟨.word, .inl rfl, rfl⟩
  · obtain ⟨outer, rfl⟩ := h.resolve_left hmode
    exact ⟨.argumentWord, .inr rfl, step_argumentStart hmode⟩

/-- An opening parenthesis opens a group or, behind a word, what the grammar may also take for the
    arguments of a call. An expression can start behind it in either case. -/
theorem step_open (h : Opens frames mode) :
    ∃ frame inner, Opens (frame :: frames) inner ∧
      step (.condition guards frames mode) .leftParen =
        some (.condition guards (frame :: frames) inner) := by
  rcases h with rfl | ⟨outer, rfl⟩
  · exact ⟨.group, .operand, .inl rfl, rfl⟩
  · cases mode with
    | word => exact ⟨.call, .opened, .inr ⟨_, rfl⟩, rfl⟩
    | argumentWord => exact ⟨.call, .opened, .inr ⟨_, rfl⟩, rfl⟩
    | operand => exact ⟨.group, .operand, .inl rfl, rfl⟩
    | opened => exact ⟨.group, .operand, .inl rfl, rfl⟩
    | complete => exact ⟨.group, .operand, .inl rfl, rfl⟩

theorem step_behind_close {frame : Frame} (h : mode.IsBehind) :
    step (.condition guards (frame :: frames) mode) .rightParen =
      some (.condition guards frames .complete) := by
  rw [step_behind h (by simp) (by simp), step_close]

theorem step_behind_operator (h : mode.IsBehind) (hk : Grammar.isInfix k) :
    step (.condition guards frames mode) k = some (.condition guards frames .operand) := by
  have hparen : k ≠ .leftParen := by
    rintro rfl
    cases hk
  have hcolon : k ≠ .colon := by
    rintro rfl
    cases hk
  rw [step_behind h hparen hcolon]
  exact if_pos hk

theorem step_close_call {outer : List Frame} (h : mode ≠ .operand) :
    step (.condition guards (.call :: outer) mode) .rightParen =
      some (.condition guards outer .complete) := by
  cases mode <;> first | exact absurd rfl h | rfl

theorem Mode.IsBehind.ne_operand (h : mode.IsBehind) : mode ≠ .operand := by
  rintro rfl
  exact h

end Steps

mutual

/-- Wherever an expression can start, one is read up to behind an operand. -/
theorem run_expression {ks : List TokenKind} (guards : Nat) {frames : List Frame} {mode : Mode}
    (hopens : Opens frames mode) : Grammar.Expression ks →
    ∃ behind : Mode, behind.IsBehind ∧
      run (.condition guards frames mode) ks = some (.condition guards frames behind)
  | .operand h => run_operand guards hopens h
  | .operator h hk h' => by
    obtain ⟨behind, hbehind, hks⟩ := run_expression guards hopens h
    obtain ⟨last, hlast, hls⟩ := run_operand guards (.inl rfl) h'
    refine ⟨last, hlast, ?_⟩
    rw [run_append_of_run hks, run_cons_of_step (step_behind_operator hbehind hk)]
    exact hls

theorem run_operand {ks : List TokenKind} (guards : Nat) {frames : List Frame} {mode : Mode}
    (hopens : Opens frames mode) : Grammar.Operand ks →
    ∃ behind : Mode, behind.IsBehind ∧
      run (.condition guards frames mode) ks = some (.condition guards frames behind)
  | .number => ⟨.complete, trivial, run_cons_of_step (step_literal hopens (.inl rfl))⟩
  | .string => ⟨.complete, trivial, run_cons_of_step (step_literal hopens (.inr rfl))⟩
  | .word => by
    obtain ⟨behind, hword, hstep⟩ := step_identifier hopens
    refine ⟨behind, ?_, run_cons_of_step hstep⟩
    rcases hword with rfl | rfl <;> trivial
  | .group h => by
    obtain ⟨frame, inner, hinner, hstep⟩ := step_open hopens
    obtain ⟨behind, hbehind, hks⟩ := run_expression guards hinner h
    refine ⟨.complete, trivial, ?_⟩
    rw [List.cons_append, run_cons_of_step hstep, run_append_of_run hks]
    exact run_cons_of_step (step_behind_close hbehind)
  | .call h => by
    obtain ⟨behind, hword, hstep⟩ := step_identifier hopens
    have hopen : step (.condition guards frames behind) .leftParen =
        some (.condition guards (.call :: frames) .opened) := by
      rcases hword with rfl | rfl <;> rfl
    have hopened : Mode.opened ≠ .operand := by simp
    obtain ⟨last, hlast, hks⟩ := run_callArguments guards frames hopened h
    refine ⟨.complete, trivial, ?_⟩
    rw [List.cons_append, List.cons_append, run_cons_of_step hstep, run_cons_of_step hopen,
      run_append_of_run hks]
    exact run_cons_of_step (step_close_call hlast)

theorem run_callArguments {ks : List TokenKind} (guards : Nat) (outer : List Frame) {mode : Mode}
    (hmode : mode ≠ .operand) : Grammar.CallArguments ks →
    ∃ last : Mode, last ≠ .operand ∧
      run (.condition guards (.call :: outer) mode) ks =
        some (.condition guards (.call :: outer) last)
  | .nil => ⟨mode, hmode, rfl⟩
  | .plain h h' => by
    obtain ⟨behind, hbehind, hks⟩ := run_expression guards (.inr ⟨outer, rfl⟩) h
    obtain ⟨last, hlast, hls⟩ := run_callArguments guards outer hbehind.ne_operand h'
    exact ⟨last, hlast, (run_append_of_run hks).trans hls⟩
  | .keyed h h' => by
    obtain ⟨behind, hbehind, hks⟩ := run_expression guards (.inl rfl) h
    obtain ⟨last, hlast, hls⟩ := run_callArguments guards outer hbehind.ne_operand h'
    refine ⟨last, hlast, ?_⟩
    rw [List.cons_append, List.cons_append, run_cons_of_step (step_argumentStart hmode),
      run_cons_of_step rfl, run_append_of_run hks]
    exact hls

end

/-! ## Statements of the grammar -/

/-- A statement under so many guards can start here. -/
def Begins (guards : Nat) (q : State) : Prop :=
  ∀ k r, startStep guards k = some r → step q k = some r

/-- A statement under so many guards can have ended here: behind a newline, even if it is that of a
    statement under more of them, or before the end of the file. -/
def Finishes (guards : Nat) (q : State) (after : List TokenKind) : Prop :=
  (∃ left, guards ≤ left ∧ q = .between left) ∨
    step q .endOfFile = some .accepted ∧ ∃ ls, after = .endOfFile :: ls

theorem begins_between (guards : Nat) : Begins 0 (.between guards) := by
  intro k r h
  cases k <;> first | (cases h; done) | exact h

theorem begins_body (guards : Nat) : Begins guards (.body guards) := by
  intro k r h
  cases k <;> first | (cases h; done) | exact h

theorem begins_behind {guards : Nat} {mode : Mode} (hmode : mode.IsBehind) :
    Begins guards (.condition guards [] mode) := by
  intro k r h
  rw [step_behind hmode (by rintro rfl; cases h) (by rintro rfl; cases h)]
  cases k <;> first | (cases h; done) | exact h

theorem run_newlines_of_step {q : State} (h : step q .newline = some q) (n : Nat) :
    run q (Grammar.newlines n) = some q := by
  induction n with
  | zero => rfl
  | succ n ih => rw [Grammar.newlines, List.replicate_succ, run_cons_of_step h]; exact ih

/-- The statement under a guard may stand on a later line than the condition. -/
theorem run_newlines_behind {guards : Nat} {mode : Mode} (hmode : mode.IsBehind) (n : Nat) :
    ∃ q, run (.condition guards [] mode) (Grammar.newlines n) = some q ∧ Begins guards q := by
  cases n with
  | zero => exact ⟨_, rfl, begins_behind hmode⟩
  | succ n =>
    have hstep : step (.condition guards [] mode) .newline = some (.body guards) := by
      rw [step_behind hmode (by simp) (by simp)]
      rfl
    refine ⟨.body guards, ?_, begins_body guards⟩
    rw [Grammar.newlines, List.replicate_succ, run_cons_of_step hstep]
    exact run_newlines_of_step rfl n

theorem run_ending {e after : List TokenKind} {guards : Nat} {q : State}
    (hq : ∀ k r, endingStep guards k = some r → step q k = some r) (h : Grammar.Ending e after) :
    ∃ last, run q e = some last ∧ Finishes guards last after := by
  cases h with
  | newline after => exact ⟨_, run_cons_of_step (hq _ _ rfl), .inl ⟨guards, Nat.le_refl _, rfl⟩⟩
  | endOfFile after => exact ⟨q, rfl, .inr ⟨hq _ _ rfl, after, rfl⟩⟩

/-- Arguments of a command can go on or end here. -/
def InArguments (guards : Nat) (q : State) : Prop :=
  q = .arguments guards ∨ q = .argumentWord guards

theorem run_commandArguments {ks : List TokenKind} (h : Grammar.CommandArguments ks) (guards : Nat)
    {q : State} (hq : InArguments guards q) :
    ∃ last, run q ks = some last ∧ InArguments guards last := by
  induction h generalizing q with
  | nil => exact ⟨q, rfl, hq⟩
  | @plain k ks hk _ ih =>
    -- a word may still turn out to be a key, which makes the state another one
    have hstep : ∃ r, step q k = some r ∧ InArguments guards r := by
      rcases hq with rfl | rfl <;>
        cases k <;> first | (cases hk; done) | exact ⟨_, rfl, .inl rfl⟩ | exact ⟨_, rfl, .inr rfl⟩
    obtain ⟨r, hr, harguments⟩ := hstep
    rw [run_cons_of_step hr]
    exact ih harguments
  | @keyed k ks hk _ ih =>
    have hword : step q .identifier = some (.argumentWord guards) := by
      rcases hq with rfl | rfl <;> rfl
    have hvalue : step (.argumentValue guards) k = some (.arguments guards) := if_pos hk
    rw [run_cons_of_step hword, run_cons_of_step rfl, run_cons_of_step hvalue]
    exact ih (.inl rfl)

theorem Finishes.mono {guards more : Nat} {q : State} {after : List TokenKind} (hle : guards ≤ more)
    (h : Finishes more q after) : Finishes guards q after := by
  rcases h with ⟨left, hleft, rfl⟩ | hend
  · exact .inl ⟨left, Nat.le_trans hle hleft, rfl⟩
  · exact .inr hend

theorem Finishes.run_newlines {guards : Nat} {q : State} {m : Nat} {after : List TokenKind}
    (h : Finishes guards q (Grammar.newlines m ++ after)) :
    ∃ last, run q (Grammar.newlines m) = some last ∧ Finishes guards last after := by
  rcases h with ⟨left, hleft, rfl⟩ | ⟨hstep, ls, hls⟩
  · exact ⟨_, run_newlines_of_step rfl m, .inl ⟨left, hleft, rfl⟩⟩
  · cases m with
    | zero => exact ⟨q, rfl, .inr ⟨hstep, ls, hls⟩⟩
    | succ m => cases hls

/-- A statement is read wherever one can start, and some of its guards can still jump. -/
theorem run_statement {ks after : List TokenKind} (h : Grammar.Statement ks after) {guards : Nat}
    {q : State} (hq : Begins guards q) :
    ∃ last, run q ks = some last ∧ Finishes guards last after := by
  induction h generalizing guards q with
  | dialogue he =>
    obtain ⟨last, hlast, hfinish⟩ := run_ending (q := .ending guards) (fun _ _ h => h) he
    exact ⟨last, (run_cons_of_step (hq _ _ rfl)).trans hlast, hfinish⟩
  | @command ks e after h he =>
    obtain ⟨r, hr, harguments⟩ := run_commandArguments h guards (.inl rfl)
    -- arguments can end behind a word, too
    have hend : ∀ k r', endingStep guards k = some r' → step r k = some r' := by
      intro k r' hk
      rcases harguments with rfl | rfl <;>
        cases k <;> first | (cases hk; done) | exact hk
    obtain ⟨last, hlast, hfinish⟩ := run_ending hend he
    refine ⟨last, ?_, hfinish⟩
    rw [run_cons_of_step (hq _ _ rfl), run_append_of_run hr]
    exact hlast
  | @conditional c b after n m hc _ ih =>
    obtain ⟨behind, hbehind, hcond⟩ := run_expression (guards + 1) (.inl rfl : Opens [] .operand) hc
    obtain ⟨start, hstart, hbegins⟩ := run_newlines_behind hbehind n
    obtain ⟨done, hdone, hfinish⟩ := ih hbegins
    obtain ⟨last, hlast, hfinish'⟩ := hfinish.run_newlines
    refine ⟨last, ?_, hfinish'.mono (Nat.le_succ guards)⟩
    rw [run_cons_of_step (hq _ _ rfl), run_append_of_run hcond, run_append_of_run hstart,
      run_append_of_run hdone]
    exact hlast
  | @jump c b e after n m hc _ he ih =>
    obtain ⟨behind, hbehind, hcond⟩ := run_expression (guards + 1) (.inl rfl : Opens [] .operand) hc
    obtain ⟨start, hstart, hbegins⟩ := run_newlines_behind hbehind n
    obtain ⟨done, hdone, hfinish⟩ := ih hbegins
    obtain ⟨arrow, harrow, ⟨left, hleft, rfl⟩ | ⟨-, ls, hls⟩⟩ := hfinish.run_newlines
    · -- the arrow belongs to the innermost guard that has none, which is not above this one
      obtain ⟨outer, rfl⟩ := Nat.exists_eq_add_of_le' hleft
      obtain ⟨last, hlast, hfinish'⟩ :=
        run_ending (q := .ending (outer + guards)) (fun _ _ h => h) he
      refine ⟨last, ?_, hfinish'.mono (Nat.le_add_left guards outer)⟩
      rw [run_cons_of_step (hq _ _ rfl), run_append_of_run hcond, run_append_of_run hstart,
        run_append_of_run hdone, run_append_of_run harrow, run_cons_of_step rfl,
        run_cons_of_step rfl]
      exact hlast
    · cases hls

/-- **Every script of the grammar is read to its end.** -/
theorem run_of_script {ks : List TokenKind} (h : Grammar.Script ks) (guards : Nat) :
    run (.between guards) ks = some .accepted := by
  induction h generalizing guards with
  | endOfFile => rfl
  | newline _ ih => exact (run_cons_of_step rfl).trans (ih guards)
  | statement hst hscript ih =>
    obtain ⟨last, hlast, ⟨left, -, rfl⟩ | ⟨hstep, ls, rfl⟩⟩ :=
      run_statement hst (begins_between guards)
    · exact (run_append_of_run hlast).trans (ih left)
    · rw [run_append_of_run hlast, hscript.eq_nil_of_endOfFile]
      exact run_cons_of_step hstep

end StageScript.Recognizer
