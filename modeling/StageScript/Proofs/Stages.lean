import StageScript.Proofs.Accounting
import StageScript.Proofs.Lines
import StageScript.Stage.Host

set_option autoImplicit false

/-! # Stages of any kind

Nothing is known of a stage but that it has a state: acts and notes change it, and so do questions,
whose answers may depend on all that has happened. Recording stages and composed stages are two of
them (`Performance.on_recording`, `Performance.on_host`). What a performance shows on a stage splits
where the performance does (`Performance.seenOn_bind`), and a run falls into turns, one for every
statement, each with the state in which the stage is left by the turns before it
(`Program.seenOn_perform`). -/

namespace StageScript

/-- What acts and notes do to the state of a stage, and how it answers questions. -/
structure Stage (σ : Type) where
  act : Act → σ → σ
  note : LogRecord → σ → σ
  answer : Query → σ → Float × σ

/-! ## Performances -/

namespace Performance

variable {α β σ : Type}

/-- A performance on a stage in some state. -/
def on (stage : Stage σ) : Performance α → σ → α × σ
  | done value, st => (value, st)
  | act a next, st => next.on stage (stage.act a st)
  | note r next, st => next.on stage (stage.note r st)
  | ask q next, st => (next (stage.answer q st).1).on stage (stage.answer q st).2

/-- What an onlooker sees of a performance on a stage in some state. -/
def seenOn (stage : Stage σ) : Performance α → σ → List Event
  | done _, _ => []
  | act a next, st => .act a :: next.seenOn stage (stage.act a st)
  | note r next, st => next.seenOn stage (stage.note r st)
  | ask q next, st =>
    .query q :: (next (stage.answer q st).1).seenOn stage (stage.answer q st).2

variable (stage : Stage σ) (st : σ)

@[simp] theorem on_pure (x : α) : (pure x : Performance α).on stage st = (x, st) := rfl

@[simp] theorem seenOn_pure (x : α) : (pure x : Performance α).seenOn stage st = [] := rfl

@[simp] theorem on_bind (p : Performance α) (f : α → Performance β) :
    (p >>= f).on stage st = (f (p.on stage st).1).on stage (p.on stage st).2 := by
  rw [bind_eq]
  induction p generalizing st with
  | done x => rfl
  | act a next ih => exact ih _
  | note r next ih => exact ih _
  | ask q next ih => exact ih _ _

@[simp] theorem seenOn_bind (p : Performance α) (f : α → Performance β) :
    (p >>= f).seenOn stage st =
      p.seenOn stage st ++ (f (p.on stage st).1).seenOn stage (p.on stage st).2 := by
  rw [bind_eq]
  induction p generalizing st with
  | done x => rfl
  | act a next ih => exact congrArg _ (ih _)
  | note r next ih => exact ih _
  | ask q next ih => exact congrArg _ (ih _ _)

@[simp] theorem seenOn_perform (a : Act) : (perform a).seenOn stage st = [.act a] := rfl

@[simp] theorem seenOn_report (d : Diagnostic) :
    (report d).seenOn stage st = [.act (.report d)] := rfl

@[simp] theorem seenOn_debug (message : String) : (debug message).seenOn stage st = [] := rfl

@[simp] theorem seenOn_info (message : String) : (info message).seenOn stage st = [] := rfl

end Performance

/-! ## The stages that there are -/

/-- A stage that only remembers. -/
def Stage.recording : Stage Recording where
  act a r := r.record (.act a)
  note _ r := r
  answer q r := (r.answer q, r.record (.query q))

/-- A stage with a part for each concern. -/
def Stage.host : Stage Host where
  act a h := h.perform a
  note r h := h.note r
  answer q h := h.answer q

section

variable {α : Type} (p : Performance α)

theorem Performance.on_recording (r : Recording) : p.on .recording r = p.onRecording r := by
  induction p generalizing r with
  | done x => rfl
  | act a next ih => exact ih _
  | note n next ih => exact ih _
  | ask q next ih => exact ih _ _

theorem Performance.on_host (h : Host) : p.on .host h = p.onHost h := by
  induction p generalizing h with
  | done x => rfl
  | act a next ih => exact ih _
  | note r next ih => exact ih _
  | ask q next ih => exact ih _ _

end

/-! ## What is shown on every stage -/

namespace Performance

variable {α β : Type}

/-- Whatever is answered, the performance shows nothing but events of the kind. -/
def Only (P : Event → Prop) : Performance α → Prop
  | done _ => True
  | act a next => P (.act a) ∧ next.Only P
  | note _ next => next.Only P
  | ask q next => P (.query q) ∧ ∀ x, (next x).Only P

namespace Only

variable {P Q : Event → Prop} {p : Performance α} {f : α → Performance β}

theorem pure (x : α) : (Pure.pure x : Performance α).Only P := trivial

theorem debug (message : String) : (Performance.debug message).Only P := trivial

theorem bind (hp : p.Only P) (hf : ∀ x, (f x).Only P) : (p >>= f).Only P := by
  rw [bind_eq]
  induction p with
  | done x => exact hf x
  | act a next ih => exact ⟨hp.1, ih hp.2⟩
  | note r next ih => exact ih hp
  | ask q next ih => exact ⟨hp.1, fun x => ih x (hp.2 x)⟩

theorem mono (hp : p.Only P) (h : ∀ e, P e → Q e) : p.Only Q := by
  induction p with
  | done x => trivial
  | act a next ih => exact ⟨h _ hp.1, ih hp.2⟩
  | note r next ih => exact ih hp
  | ask q next ih => exact ⟨h _ hp.1, fun x => ih x (hp.2 x)⟩

theorem of_mem {σ : Type} {stage : Stage σ} {st : σ} (hp : p.Only P) {e : Event}
    (he : e ∈ p.seenOn stage st) : P e := by
  induction p generalizing st with
  | done x => cases he
  | act a next ih =>
    rcases List.mem_cons.1 he with rfl | he
    · exact hp.1
    · exact ih hp.2 he
  | note r next ih => exact ih hp he
  | ask q next ih =>
    rcases List.mem_cons.1 he with rfl | he
    · exact hp.1
    · exact ih _ (hp.2 _) he

end Only

end Performance

/-! ## Evaluations -/

/-- The event belongs to the evaluation of an expression, and if it is a diagnostic, it is on one of
    the lines. -/
def Event.EvaluatesOn (lines : List Nat) : Event → Prop
  | .query _ => True
  | .act (.report (.unknownFunction _ line)) => line ∈ lines
  | .act (.report (.coercion _ line)) => line ∈ lines
  | _ => False

theorem Event.EvaluatesOn.mono {lines more : List Nat} (h : lines ⊆ more) (e : Event)
    (he : e.EvaluatesOn lines) : e.EvaluatesOn more := by
  unfold EvaluatesOn at he ⊢
  split at he
  · trivial
  · exact h he
  · exact h he
  · exact he.elim

theorem Event.EvaluatesOn.isEvaluation {lines : List Nat} {e : Event} (he : e.EvaluatesOn lines) :
    e.isEvaluation = true := by
  unfold EvaluatesOn at he
  split at he
  · rfl
  · rfl
  · rfl
  · exact he.elim

section Evaluation

variable {lines : List Nat} {line : Nat}

theorem Value.only_coerceNumber (h : line ∈ lines) (v : Value) :
    (v.coerceNumber line).Only (Event.EvaluatesOn lines) := by
  rw [coerceNumber]
  split
  · exact .pure _
  · exact ⟨h, trivial⟩

theorem Value.only_coerceBool (h : line ∈ lines) (v : Value) :
    (v.coerceBool line).Only (Event.EvaluatesOn lines) := by
  rw [coerceBool]
  split
  · exact .pure _
  · exact ⟨h, trivial⟩

theorem Operator.only_apply (h : line ∈ lines) (o : Operator) (lhs rhs : Value) :
    (o.apply lhs rhs line).Only (Event.EvaluatesOn lines) := by
  cases o with
  | comparison c =>
    exact (lhs.only_coerceNumber h).bind fun _ => (rhs.only_coerceNumber h).bind fun _ => .pure _
  | connective c =>
    exact (lhs.only_coerceBool h).bind fun _ => (rhs.only_coerceBool h).bind fun _ => .pure _

theorem BuiltIn.only_apply (f : BuiltIn) (text : Option String) (line : Nat) :
    (f.apply text line).Only (Event.EvaluatesOn lines) :=
  ⟨trivial, fun _ => trivial⟩

theorem BuiltIn.only_applyUnknown (h : line ∈ lines) (name : String) :
    (applyUnknown name line).Only (Event.EvaluatesOn lines) :=
  ⟨h, trivial⟩

theorem TreeArguments.lines_of_find? {key : String} {arguments : TreeArguments} {t : Tree}
    (h : arguments.find? key = some t) : t.lines ⊆ arguments.lines := by
  match arguments with
  | .nil => cases h
  | .cons k value rest =>
    rw [find?] at h
    rw [lines_cons]
    split at h
    · obtain rfl := Option.some.inj h
      exact List.subset_append_left _ _
    · exact List.Subset.trans (lines_of_find? h) (List.subset_append_right _ _)

/-- The argument that a function looks at is one of its arguments. -/
theorem BuiltIn.lines_of_choose? {f : BuiltIn} {arguments : TreeArguments} {t : Tree}
    (h : f.choose? arguments = some t) : t.lines ⊆ arguments.lines := by
  rw [choose?] at h
  split at h
  · cases h
  · rcases Option.or_eq_some_iff.1 h with h | ⟨-, h⟩
    · exact TreeArguments.lines_of_find? h
    · cases arguments with
      | nil => cases h
      | cons key value rest =>
        obtain rfl := Option.some.inj h
        rw [TreeArguments.lines_cons]
        exact List.subset_append_left _ _

/-- Evaluating a tree shows nothing but questions, and diagnostics on lines of the tree. -/
theorem Tree.only_evaluate (t : Tree) : t.evaluate.Only (Event.EvaluatesOn t.lines) := by
  induction t using Tree.evaluated_induct with
  | atom literal line =>
    rw [evaluate]
    exact .pure _
  | group inner ih =>
    rw [evaluate, lines_group]
    exact ih
  | join o lhs rhs ihl ihr =>
    have hline : lhs.line ∈ (o.join lhs rhs).lines := by
      rw [lines_join]
      exact List.mem_append_left _ lhs.line_mem_lines
    rw [lines_join] at hline ⊢
    rw [evaluate_join]
    exact (ihl.mono (Event.EvaluatesOn.mono (List.subset_append_left _ _))).bind fun _ =>
      (ihr.mono (Event.EvaluatesOn.mono (List.subset_append_right _ _))).bind fun _ =>
        o.only_apply hline _ _
  | unknown name arguments line hname =>
    rw [evaluate_unknown hname]
    exact BuiltIn.only_applyUnknown (by simp) name
  | bare name arguments line f hname hchoose =>
    rw [evaluate_bare hname hchoose]
    exact f.only_apply none line
  | argument name arguments line f t hname hchoose ih =>
    have hlines : t.lines ⊆ (call name arguments line).lines := by
      rw [lines_call]
      exact List.Subset.trans (BuiltIn.lines_of_choose? hchoose) (List.subset_cons_self _ _)
    rw [evaluate_argument hname hchoose]
    exact (ih.mono (Event.EvaluatesOn.mono hlines)).bind fun _ => f.only_apply _ line

/-- A guard shows what its condition shows, and a diagnostic on its own line if the condition is
    neither true nor false. -/
theorem Statement.only_performGuard (t : Tree) (line : Nat) :
    (performGuard (.ofTree t) line).Only (Event.EvaluatesOn (line :: t.lines)) := by
  rw [performGuard, Expression.evaluate_ofTree]
  have ht := t.only_evaluate.mono (Event.EvaluatesOn.mono (List.subset_cons_self line t.lines))
  exact ht.bind fun value => (value.only_coerceBool (by simp)).bind fun _ =>
    (Performance.Only.debug _).bind fun _ => .pure _

end Evaluation

/-! ## Turns -/

section

variable {σ : Type} (stage : Stage σ)

theorem Statement.seenOn_noteUnaccepted (known : Command) (line : Nat) (keys : List String)
    (st : σ) : (noteUnaccepted known line keys).seenOn stage st = [] := by
  induction keys generalizing st with
  | nil => rfl
  | cons key keys ih =>
    rw [noteUnaccepted]
    split <;> simp [ih]

theorem Statement.on_performSkip (jump : Option String) (line : Nat) (st : σ) :
    ((performSkip jump line).on stage st).1 = .ok .skipped := by
  cases jump <;> rfl

theorem Statement.seenOn_performSkip (g : Guard) (st : σ) :
    (performSkip g.jump g.line).seenOn stage st = g.skipEvents := by
  obtain ⟨condition, jump, line⟩ := g
  cases jump <;> rfl

/-- A statement in a run: it is carried out, and if it fails the failure is reported. -/
def Statement.performTurn (s : Statement) : Performance (Except Failure Outcome) := do
  let result ← s.perform
  match result with
  | .error failure => .report (.failed failure)
  | .ok _ => pure ()
  return result

/-- A failure is reported behind everything else. -/
theorem Statement.seenOn_performTurn (s : Statement) (st : σ) :
    s.performTurn.seenOn stage st =
      s.perform.seenOn stage st ++ resultEvents (s.perform.on stage st).1 := by
  rw [performTurn, Performance.seenOn_bind]
  cases (s.perform.on stage st).1 <;> simp [resultEvents]

/-- A statement and the state in which it finds the stage. -/
structure Turn (σ : Type) where
  statement : Statement
  state : σ

/-- What is seen of the stage in a turn. -/
def Turn.seen (turn : Turn σ) : List Event := turn.statement.performTurn.seenOn stage turn.state

namespace Program

/-- The turns of some statements, the first of which finds the stage in the state. -/
def turnsFrom : List Statement → σ → List (Turn σ)
  | [], _ => []
  | s :: rest, st => ⟨s, st⟩ :: turnsFrom rest (s.performTurn.on stage st).2

/-- The turns of a run that finds the stage in the state. -/
def turns (p : Program) (st : σ) : List (Turn σ) := turnsFrom stage p.statements st

theorem map_statement_turnsFrom (statements : List Statement) (st : σ) :
    (turnsFrom stage statements st).map Turn.statement = statements := by
  induction statements generalizing st with
  | nil => rfl
  | cons s rest ih => rw [turnsFrom, List.map_cons, ih]

/-- Every statement has one turn, in the order of the program. -/
theorem map_statement_turns (p : Program) (st : σ) :
    (p.turns stage st).map Turn.statement = p.statements :=
  map_statement_turnsFrom stage p.statements st

theorem mem_of_turn {p : Program} {st : σ} {turn : Turn σ} (h : turn ∈ p.turns stage st) :
    turn.statement ∈ p.statements := by
  rw [← p.map_statement_turns stage st]
  exact List.mem_map_of_mem h

theorem performFrom_cons (tally : Tally) (s : Statement) (rest : List Statement) :
    performFrom tally (s :: rest) =
      s.performTurn >>= fun result => performFrom (tally.count result) rest := by
  rw [performFrom, Statement.performTurn, Performance.bind_eq, Performance.bind_eq,
    Performance.bind_eq, Performance.bind_assoc]
  congr
  funext result
  cases result <;> rfl

theorem seenOn_performFrom (tally : Tally) (statements : List Statement) (st : σ) :
    (performFrom tally statements).seenOn stage st =
      (turnsFrom stage statements st).flatMap (Turn.seen stage) := by
  induction statements generalizing tally st with
  | nil => rfl
  | cons s rest ih =>
    rw [performFrom_cons, Performance.seenOn_bind, ih, turnsFrom, List.flatMap_cons]
    rfl

/-- **A run shows what its turns show**, one after the other. -/
theorem seenOn_perform (p : Program) (st : σ) :
    p.perform.seenOn stage st = (p.turns stage st).flatMap (Turn.seen stage) := by
  rw [perform, Performance.seenOn_bind, seenOn_performFrom]
  simp [turns]

end Program

end

end StageScript
