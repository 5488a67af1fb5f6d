import StageScript.Proofs.Unfolding

set_option autoImplicit false

/-! # What a run reports

The events of a statement are those of its guards, from the outermost one inwards up to the first
that is not met, and then at most one event that tells how the statement came out. A guard asks for
the truth of the tree of its condition and adds nothing to it (`Guard.events_eq`). A run is made of
its statements, so its tally counts the events that close them. Main statement:
`Program.accounted`. -/

namespace StageScript

/-! ## Kinds of events -/

namespace Event

/-- The event reaches the character or the machine. -/
def isSink : Event → Bool
  | .act (.report _) => false
  | .act _ => true
  | .query _ => false

def isUnknownCommand : Event → Bool
  | .act (.report (.unknownCommand _ _)) => true
  | _ => false

def isFailure : Event → Bool
  | .act (.report (.failed _)) => true
  | _ => false

def isIgnoredJump : Event → Bool
  | .act (.report (.ignoredJump _ _)) => true
  | _ => false

/-- The event belongs to the evaluation of an expression. -/
def isEvaluation : Event → Bool
  | .query _ => true
  | .act (.report (.unknownFunction _ _)) => true
  | .act (.report (.coercion _ _)) => true
  | _ => false

end Event

/-! ## Evaluations -/

section Evaluation

variable (answer : Query → Float)

/-- The events of a performance belong to an evaluation. -/
def Performance.Evaluates {α : Type} (p : Performance α) : Prop :=
  ∀ e ∈ p.events answer, e.isEvaluation = true

variable {answer}

theorem Performance.Evaluates.pure {α : Type} (x : α) :
    (Pure.pure x : Performance α).Evaluates answer := by
  simp [Evaluates]

theorem Performance.Evaluates.bind {α β : Type} {p : Performance α} {f : α → Performance β}
    (hp : p.Evaluates answer) (hf : ∀ x, (f x).Evaluates answer) : (p >>= f).Evaluates answer := by
  intro e he
  rw [events_bind] at he
  rcases List.mem_append.1 he with he | he
  · exact hp e he
  · exact hf _ e he

theorem Value.evaluates_coerceBool (v : Value) (line : Nat) :
    (v.coerceBool line).Evaluates answer := by
  simp [Performance.Evaluates, CoercionError.event, Event.isEvaluation]

theorem BuiltIn.evaluates_apply (f : BuiltIn) (text : Option String) (line : Nat) :
    (f.apply text line).Evaluates answer := by
  simp [Performance.Evaluates, Event.isEvaluation]

theorem BuiltIn.evaluates_applyUnknown (name : String) (line : Nat) :
    (applyUnknown name line).Evaluates answer := by
  simp [Performance.Evaluates, Event.isEvaluation]

theorem Operator.evaluates_apply (o : Operator) (lhs rhs : Value) (line : Nat) :
    (o.apply lhs rhs line).Evaluates answer := by
  simp [Performance.Evaluates, CoercionError.event, Event.isEvaluation]

theorem Tree.evaluates_evaluate (t : Tree) : t.evaluate.Evaluates answer := by
  induction t using Tree.evaluated_induct with
  | atom literal line =>
    rw [evaluate]
    exact .pure _
  | group inner ih =>
    rw [evaluate]
    exact ih
  | join o lhs rhs ihl ihr =>
    rw [evaluate_join]
    exact ihl.bind fun _ => ihr.bind fun _ => o.evaluates_apply _ _ _
  | unknown name arguments line hname =>
    rw [evaluate_unknown hname]
    exact BuiltIn.evaluates_applyUnknown name line
  | bare name arguments line f hname hchoose =>
    rw [evaluate_bare hname hchoose]
    exact f.evaluates_apply none line
  | argument name arguments line f t hname hchoose ih =>
    rw [evaluate_argument hname hchoose]
    exact ih.bind fun _ => f.evaluates_apply _ line

/-- The value of a tree, taken as a truth value. -/
def Tree.truth (t : Tree) (line : Nat) : Performance Bool := do
  let value ← t.evaluate
  value.coerceBool line

theorem Tree.evaluates_truth (t : Tree) (line : Nat) : (t.truth line).Evaluates answer :=
  t.evaluates_evaluate.bind fun value => value.evaluates_coerceBool line

end Evaluation

/-! ## Guards -/

/-- A condition that a statement stands under. -/
structure Guard where
  condition : Expression
  jump : Option String
  line : Nat

namespace Guard

variable (answer : Query → Float) (g : Guard)

/-- What is recorded while the guard is looked at. -/
def events : List Event := (Statement.performGuard g.condition g.line).events answer

/-- The guard lets the statement through. -/
def Met : Prop := (Statement.performGuard g.condition g.line).value answer = true

/-- What is recorded when the guard leaves the statement out. -/
def skipEvents : List Event :=
  g.jump.toList.map fun label => .act (.report (.ignoredJump label g.line))

variable {answer g}

/-- A guard asks for the truth of the tree of its condition; what it notes besides is no event. -/
theorem events_eq {t : Tree} (ht : g.condition.tree? = some t) :
    g.events answer = (t.truth g.line).events answer := by
  simp [events, Statement.performGuard, Expression.evaluate_of_tree? ht, Tree.truth]

theorem met_iff {t : Tree} (ht : g.condition.tree? = some t) :
    g.Met answer ↔ (t.truth g.line).value answer = true := by
  simp [Met, Statement.performGuard, Expression.evaluate_of_tree? ht, Tree.truth]

theorem isEvaluation_of_mem {t : Tree} (ht : g.condition.tree? = some t) {e : Event}
    (he : e ∈ g.events answer) : e.isEvaluation = true :=
  t.evaluates_truth g.line e (events_eq ht ▸ he)

end Guard

/-- The guards of a statement from the outermost one inwards. -/
def Statement.guards : Statement → List Guard
  | dialogue _ _ => []
  | command _ _ _ => []
  | conditional condition body jump line => ⟨condition, jump, line⟩ :: body.guards

/-! ## Statements -/

/-- The event that closes a statement whose guards are all met. -/
inductive Closes : Except Failure Outcome → Event → Prop where
  | executed {e : Event} (hsink : e.isSink = true) : Closes (.ok .executed) e
  | ignored (name : String) (line : Nat) :
    Closes (.ok .ignored) (.act (.report (.unknownCommand name line)))
  | failed (failure : Failure) : Closes (.error failure) (.act (.report (.failed failure)))

/-- How the events of a statement under guards account for its result. -/
inductive Account (answer : Query → Float) (guards : List Guard) :
    Except Failure Outcome → List Event → Prop where
  | closed (met : ∀ g ∈ guards, g.Met answer) {result : Except Failure Outcome} {e : Event}
    (hclose : Closes result e) :
    Account answer guards result (guards.flatMap (Guard.events answer) ++ [e])
  /-- The first guard that is not met is the last one that is looked at. -/
  | skipped {before after : List Guard} {g : Guard} (hguards : guards = before ++ g :: after)
    (met : ∀ b ∈ before, b.Met answer) (unmet : ¬g.Met answer) :
    Account answer guards (.ok .skipped)
      ((before ++ [g]).flatMap (Guard.events answer) ++ g.skipEvents)

/-- What a run records when a result is counted. -/
def resultEvents : Except Failure Outcome → List Event
  | .ok _ => []
  | .error failure => [.act (.report (.failed failure))]

/-- What a run records for a statement. -/
def Statement.recorded (answer : Query → Float) (s : Statement) : List Event :=
  s.perform.events answer ++ resultEvents (s.perform.value answer)

section Statements

variable {answer : Query → Float}

/-- A guard that is met adds its events. -/
theorem Account.cons {guards : List Guard} {g : Guard} {result : Except Failure Outcome}
    {events : List Event} (h : Account answer guards result events) (hmet : g.Met answer) :
    Account answer (g :: guards) result (g.events answer ++ events) := by
  cases h with
  | closed met hclose =>
    rw [← List.append_assoc, ← List.flatMap_cons]
    exact .closed (List.forall_mem_cons.2 ⟨hmet, met⟩) hclose
  | skipped hguards met unmet =>
    rw [← List.append_assoc, ← List.flatMap_cons, ← List.cons_append]
    exact .skipped (by rw [hguards, List.cons_append]) (List.forall_mem_cons.2 ⟨hmet, met⟩) unmet

theorem Closes.account {result : Except Failure Outcome} {e : Event} (h : Closes result e) :
    Account answer [] result [e] :=
  .closed (by simp) h

namespace Statement

theorem events_noteUnaccepted (known : Command) (line : Nat) (keys : List String) :
    (noteUnaccepted known line keys).events answer = [] := by
  induction keys with
  | nil => rfl
  | cons key keys ih =>
    rw [noteUnaccepted]
    split <;> simp [ih]

theorem account_dialogue (text : String) (line : Nat) :
    Account answer [] ((dialogue text line).perform.value answer)
      ((dialogue text line).recorded answer) := by
  rw [recorded, perform, performDialogue]
  cases Text.unmark? text with
  | none => exact (Closes.failed _).account
  | some spoken => exact Closes.account (.executed rfl)

/-- Every command of the table acts on the outside. -/
theorem isSink_of_action {name : String} {known : Command}
    (hname : Command.lookup? name = some known) {call : CommandCall} {act : Act}
    (hact : known.action call = .ok act) :
    (Event.act act).isSink = true := by
  have hmem := List.mem_of_find?_eq_some hname
  simp only [Command.table, List.mem_cons, List.not_mem_nil, or_false] at hmem
  rcases hmem with rfl | rfl | rfl
  · cases hact
    rfl
  · cases hact
    rfl
  · dsimp only [Command.openApplication] at hact
    cases hpath : call.require Command.pathKey with
    | error kind => rw [hpath] at hact; cases hact
    | ok path => rw [hpath] at hact; cases hact; rfl

theorem account_command (name : String) (arguments : Arguments) (line : Nat) :
    Account answer [] ((command name arguments line).perform.value answer)
      ((command name arguments line).recorded answer) := by
  rw [recorded, perform, performCommand]
  cases hname : Command.lookup? name with
  | none => exact (Closes.ignored name line).account
  | some known =>
    dsimp only
    rw [performKnown]
    cases known.check (.ofArguments name arguments) with
    | error kind => exact (Closes.failed _).account
    | ok _ =>
      cases hact : known.action (.ofArguments name arguments) with
      | error kind =>
        simpa [events_noteUnaccepted, resultEvents] using (Closes.failed ⟨kind, line⟩).account
      | ok act =>
        have hclose : Closes (.ok .executed) (.act act) := .executed (isSink_of_action hname hact)
        simpa [events_noteUnaccepted, resultEvents] using hclose.account

theorem value_performSkip (jump : Option String) (line : Nat) :
    (performSkip jump line).value answer = .ok .skipped := by
  cases jump <;> rfl

theorem events_performSkip (g : Guard) :
    (performSkip g.jump g.line).events answer = g.skipEvents := by
  obtain ⟨condition, jump, line⟩ := g
  cases jump <;> rfl

/-- The events of a statement account for its result. -/
theorem account (s : Statement) :
    Account answer s.guards (s.perform.value answer) (s.recorded answer) := by
  induction s with
  | dialogue text line => exact account_dialogue text line
  | command name arguments line => exact account_command name arguments line
  | conditional condition body jump line ih =>
    rw [recorded, perform, Performance.value_bind, Performance.events_bind]
    by_cases hmet : (⟨condition, jump, line⟩ : Guard).Met answer
    · have hvalue : (performGuard condition line).value answer = true := hmet
      rw [hvalue, if_pos rfl, List.append_assoc]
      exact ih.cons hmet
    · have hvalue : (performGuard condition line).value answer = false := by
        simpa [Guard.Met] using hmet
      have hskip : Account answer (⟨condition, jump, line⟩ :: body.guards) (.ok .skipped) _ :=
        .skipped (List.nil_append _).symm (by simp) hmet
      have hevents : (performSkip jump line).events answer =
          Guard.skipEvents ⟨condition, jump, line⟩ := events_performSkip ⟨condition, jump, line⟩
      rw [hvalue, if_neg Bool.false_ne_true, value_performSkip, resultEvents, List.append_nil,
        hevents]
      rwa [List.nil_append, List.flatMap_singleton] at hskip

end Statement

/-! ## Tallies -/

/-- A tally accounts for the events of as many statements. -/
structure Tally.Accounts (t : Tally) (statements : Nat) (events : List Event) : Prop where
  total : t.total = statements
  executed : t.executed = events.countP Event.isSink
  ignored : t.ignored = events.countP Event.isUnknownCommand
  failed : t.failed = events.countP Event.isFailure
  jumps : events.countP Event.isIgnoredJump ≤ t.skipped

theorem countP_evaluations {events : List Event} (h : ∀ e ∈ events, e.isEvaluation = true)
    {kind : Event → Bool} (hkind : ∀ e : Event, e.isEvaluation = true → kind e = false) :
    events.countP kind = 0 :=
  List.countP_eq_zero.2 fun e he => by simp [hkind e (h e he)]

namespace Tally.Accounts

variable {t : Tally} {n : Nat} {events : List Event}

/-- Evaluations are not counted. -/
theorem append_evaluations (h : t.Accounts n events) {more : List Event}
    (hmore : ∀ e ∈ more, e.isEvaluation = true) : t.Accounts n (events ++ more) := by
  have hcount : ∀ kind : Event → Bool, (∀ e : Event, e.isEvaluation = true → kind e = false) →
      (events ++ more).countP kind = events.countP kind := by
    intro kind hkind
    rw [List.countP_append, countP_evaluations hmore hkind, Nat.add_zero]
  have hkinds : ∀ e : Event, e.isEvaluation = true → e.isSink = false ∧
      e.isUnknownCommand = false ∧ e.isFailure = false ∧ e.isIgnoredJump = false := by
    intro e he
    simp only [Event.isEvaluation] at he
    split at he
    · exact ⟨rfl, rfl, rfl, rfl⟩
    · exact ⟨rfl, rfl, rfl, rfl⟩
    · exact ⟨rfl, rfl, rfl, rfl⟩
    · cases he
  refine ⟨h.total, ?_, ?_, ?_, ?_⟩
  · rw [hcount _ fun e he => (hkinds e he).1, h.executed]
  · rw [hcount _ fun e he => (hkinds e he).2.1, h.ignored]
  · rw [hcount _ fun e he => (hkinds e he).2.2.1, h.failed]
  · rw [hcount _ fun e he => (hkinds e he).2.2.2]
    exact h.jumps

/-- One more event is accounted for if its result is counted where the event belongs. -/
theorem append_event (h : t.Accounts n events) {result : Except Failure Outcome} {e : Event}
    (executed : (t.count result).executed = t.executed + if e.isSink then 1 else 0)
    (ignored : (t.count result).ignored = t.ignored + if e.isUnknownCommand then 1 else 0)
    (failed : (t.count result).failed = t.failed + if e.isFailure then 1 else 0)
    (jumps : t.skipped + (if e.isIgnoredJump then 1 else 0) ≤ (t.count result).skipped) :
    (t.count result).Accounts (n + 1) (events ++ [e]) := by
  refine ⟨by rw [total_count, h.total], ?_, ?_, ?_, ?_⟩
  · rw [executed, h.executed, List.countP_append, List.countP_singleton]
  · rw [ignored, h.ignored, List.countP_append, List.countP_singleton]
  · rw [failed, h.failed, List.countP_append, List.countP_singleton]
  · rw [List.countP_append, List.countP_singleton]
    exact (Nat.add_le_add_right h.jumps _).trans jumps

/-- A closing event is counted as its result. -/
theorem append_closing (h : t.Accounts n events) {result : Except Failure Outcome} {e : Event}
    (hclose : Closes result e) : (t.count result).Accounts (n + 1) (events ++ [e]) := by
  cases hclose with
  | executed hsink =>
    match e, hsink with
    | .act (.say _), _ | .act (.blockInput _), _ | .act (.openPath _), _ =>
      exact h.append_event rfl rfl rfl (Nat.le_refl _)
  | ignored name line => exact h.append_event rfl rfl rfl (Nat.le_refl _)
  | failed failure => exact h.append_event rfl rfl rfl (Nat.le_refl _)

/-- A guard that is not met is counted as skipping, whether it has a jump or not. -/
theorem append_skip (h : t.Accounts n events) (g : Guard) :
    (t.count (.ok .skipped)).Accounts (n + 1) (events ++ g.skipEvents) := by
  rw [Guard.skipEvents]
  cases g.jump with
  | none =>
    have htotal : (t.count (.ok .skipped)).total = n + 1 := by rw [total_count, h.total]
    rw [Option.toList_none, List.map_nil, List.append_nil]
    exact ⟨htotal, h.executed, h.ignored, h.failed, Nat.le_succ_of_le h.jumps⟩
  | some label => exact h.append_event rfl rfl rfl (Nat.le_refl _)

/-- A statement adds to a tally what its events account for. -/
theorem append_statement (h : t.Accounts n events) {guards : List Guard}
    {result : Except Failure Outcome} {more : List Event}
    (hstatement : Account answer guards result more)
    (heval : ∀ g ∈ guards, ∀ e ∈ g.events answer, e.isEvaluation = true) :
    (t.count result).Accounts (n + 1) (events ++ more) := by
  have hall : ∀ gs ⊆ guards, ∀ e ∈ gs.flatMap (Guard.events answer), e.isEvaluation = true := by
    intro gs hgs e he
    obtain ⟨g, hg, he⟩ := List.mem_flatMap.1 he
    exact heval g (hgs hg) e he
  cases hstatement with
  | closed met hclose =>
    rw [← List.append_assoc]
    exact (h.append_evaluations (hall guards (List.Subset.refl _))).append_closing hclose
  | @skipped before after g hguards met unmet =>
    have hsub : before ++ [g] ⊆ guards := by
      rw [hguards]
      simp
    rw [← List.append_assoc]
    exact (h.append_evaluations (hall _ hsub)).append_skip g

end Tally.Accounts

/-! ## Programs -/

namespace Program

/-- A run counts the results of its statements one by one. -/
theorem value_performFrom (tally : Tally) (statements : List Statement) :
    (performFrom tally statements).value answer =
      statements.foldl (fun t s => t.count (s.perform.value answer)) tally := by
  induction statements generalizing tally with
  | nil => rfl
  | cons s rest ih =>
    rw [performFrom, Performance.value_bind, List.foldl_cons, ← ih]
    cases s.perform.value answer <;> simp

/-- A run records its statements one after the other. -/
theorem events_performFrom (tally : Tally) (statements : List Statement) :
    (performFrom tally statements).events answer =
      statements.flatMap (Statement.recorded answer) := by
  induction statements generalizing tally with
  | nil => rfl
  | cons s rest ih =>
    rw [performFrom, Performance.events_bind, List.flatMap_cons, Statement.recorded]
    cases s.perform.value answer <;> simp [resultEvents, ih]

theorem onRecording_perform (p : Program) (r : Recording) :
    p.perform.onRecording r =
      (p.statements.foldl (fun t s => t.count (s.perform.value r.answer)) .zero,
        r.append (p.statements.flatMap (Statement.recorded r.answer))) := by
  rw [Performance.onRecording_eq, perform]
  simp [value_performFrom, events_performFrom]

theorem accounts_foldl {statements : List Statement}
    (heval : ∀ s ∈ statements, ∀ g ∈ s.guards, ∀ e ∈ g.events answer, e.isEvaluation = true)
    {t : Tally} {n : Nat} {events : List Event} (h : t.Accounts n events) :
    (statements.foldl (fun t s => t.count (s.perform.value answer)) t).Accounts
      (n + statements.length) (events ++ statements.flatMap (Statement.recorded answer)) := by
  induction statements generalizing t n events with
  | nil => simpa using h
  | cons s rest ih =>
    obtain ⟨hs, hrest⟩ := List.forall_mem_cons.1 heval
    have hstep := ih hrest (h.append_statement s.account hs)
    rw [List.flatMap_cons, List.length_cons, ← List.append_assoc]
    rwa [Nat.add_assoc, Nat.add_comm 1] at hstep

end Program

end Statements

/-- How a run and what it records account for each other. -/
structure Program.Accounted (p : Program) (r : Recording) : Prop where
  /-- The tally counts how the statements come out. -/
  counts : (p.perform.onRecording r).1 =
    p.statements.foldl (fun t s => t.count (s.perform.onRecording r).1) .zero
  /-- The events are those of the statements one after the other. -/
  records : (p.perform.onRecording r).2 =
    r.append (p.statements.flatMap (Statement.recorded r.answer))
  tally : (p.perform.onRecording r).1.Accounts p.statements.length
    (p.statements.flatMap (Statement.recorded r.answer))
  /-- The events of a statement are those of its guards up to the first that is not met, and the
      event of its result. -/
  statements : ∀ s ∈ p.statements,
    Account r.answer s.guards (s.perform.onRecording r).1 (s.recorded r.answer)
  /-- A guard records what the truth of the tree of its condition does, and is met if that is so. -/
  guards : ∀ s ∈ p.statements, ∀ g ∈ s.guards, ∃ t, g.condition.tree? = some t ∧
    g.condition.evaluate = t.evaluate ∧
    g.events r.answer = (t.truth g.line).events r.answer ∧
    (g.Met r.answer ↔ (t.truth g.line).value r.answer = true) ∧
    ∀ e ∈ g.events r.answer, e.isEvaluation = true

/-- **A run is accounted for by its events**, whatever the stage answers. -/
theorem Program.accounted (p : Program)
    (sound : ∀ s ∈ p.statements, ∀ g ∈ s.guards, g.condition.Sound) (r : Recording) :
    p.Accounted r := by
  have htree : ∀ s ∈ p.statements, ∀ g ∈ s.guards, ∃ t, g.condition.tree? = some t :=
    fun s hs g hg => (sound s hs g hg).exists_tree?
  have heval : ∀ s ∈ p.statements, ∀ g ∈ s.guards, ∀ e ∈ g.events r.answer,
      e.isEvaluation = true := by
    intro s hs g hg e
    obtain ⟨t, ht⟩ := htree s hs g hg
    exact Guard.isEvaluation_of_mem ht
  refine ⟨?_, ?_, ?_, fun s _ => ?_, fun s hs g hg => ?_⟩
  · simp only [p.onRecording_perform, Performance.onRecording_eq]
  · rw [p.onRecording_perform]
  · have hzero : Tally.zero.Accounts 0 [] := ⟨rfl, rfl, rfl, rfl, Nat.le_refl _⟩
    have haccounts := accounts_foldl heval hzero
    rw [p.onRecording_perform]
    simpa using haccounts
  · rw [Performance.onRecording_eq]
    exact s.account
  · obtain ⟨t, ht⟩ := htree s hs g hg
    exact ⟨t, ht, Expression.evaluate_of_tree? ht, Guard.events_eq ht, Guard.met_iff ht,
      heval s hs g hg⟩

/-- A guard of shared nodes around one that calls an unknown function and has a jump, and a command
    that lacks its argument. -/
theorem Program.accounted_nested :
    (⟨[.conditional ⟨#[.atom (.word "true") 1, .connective .disjunction 0 0], 1, by decide⟩
        (.conditional (.ofTree (.call "謎" .nil 2)) (.dialogue "「はい」" 3) (some "先") 2) none 1,
      .command "アプリケーションを開く" .empty 4]⟩ : Program).Accounted .empty := by
  refine Program.accounted _ (fun s hs g hg => ?_) .empty
  simp only [List.mem_cons, List.not_mem_nil, or_false] at hs
  rcases hs with rfl | rfl
  · simp only [Statement.guards, List.mem_cons, List.not_mem_nil, or_false] at hg
    rcases hg with rfl | rfl
    · refine Expression.sound_of_refersBack fun i n hn j hj => ?_
      rcases i with _ | _ | i
      · cases hn
        cases hj
      · obtain rfl : Node.connective .disjunction 0 0 = n := Option.some.inj hn
        simp only [Node.references, List.mem_cons, List.not_mem_nil, or_false, or_self] at hj
        omega
      · simp at hn
    · exact Expression.sound_ofTree _
  · cases hg

end StageScript
