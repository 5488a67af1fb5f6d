import StageScript.Proofs.Quoting
import StageScript.Proofs.Stages

set_option autoImplicit false

/-! # The one way to fail

A script that has been read can fail in one way while it runs: all the guards of a statement are
met, and what stands under them opens an application without saying which. Every dialogue has its
marks, since it was scanned as a string, and a command whose arguments were checked finds them. Main
statement: `Program.failsOnly`. -/

namespace StageScript

/-! ## Commands -/

theorem CommandCall.get?_ofArguments (name : String) (arguments : Arguments) (key : String) :
    (ofArguments name arguments).get? key = (arguments.get? key).map Literal.argumentText := by
  rw [get?, ofArguments, Arguments.get?, List.find?_map, Option.map_map, Option.map_map]
  rfl

namespace Command

/-- A command of the table passes the check and acts, with a path if it opens an application; or it
    opens an application and lacks the path. -/
theorem check_cases {known : Command} (hknown : known ∈ table) (call : CommandCall) :
    (known.check call = .ok () ∧ (known = openApplication → call.get? pathKey ≠ none) ∧
        ∃ act, known.action call = .ok act) ∨
      known.check call = .error (.missingArgument call.name pathKey) ∧ known = openApplication ∧
        call.get? pathKey = none := by
  simp only [table, List.mem_cons, List.not_mem_nil, or_false] at hknown
  rcases hknown with rfl | rfl | rfl
  · exact .inl ⟨rfl, fun h => absurd (congrArg Command.name h) (by decide), _, rfl⟩
  · exact .inl ⟨rfl, fun h => absurd (congrArg Command.name h) (by decide), _, rfl⟩
  · have hcheck : openApplication.check call = (call.require pathKey).map fun _ => () := by
      simp only [check, openApplication, List.forM_eq_forM, List.forM_cons]
      cases call.require pathKey <;> rfl
    cases hpath : call.get? pathKey with
    | none =>
      have hrequire : call.require pathKey = .error (.missingArgument call.name pathKey) := by
        rw [CommandCall.require, hpath]
      exact .inr ⟨by rw [hcheck, hrequire]; rfl, rfl, rfl⟩
    | some path =>
      have hrequire : call.require pathKey = .ok path := by rw [CommandCall.require, hpath]
      refine .inl ⟨by rw [hcheck, hrequire]; rfl, fun _ => by simp, .openPath path, ?_⟩
      simp only [openApplication, hrequire]
      rfl

/-- What the check has found, the action finds as well. -/
theorem exists_action_of_check {known : Command} (hknown : known ∈ table) {call : CommandCall}
    (h : known.check call = .ok ()) : ∃ act, known.action call = .ok act := by
  rcases check_cases hknown call with ⟨-, -, hact⟩ | ⟨herror, -⟩
  · exact hact
  · rw [h] at herror
    cases herror

end Command

/-! ## Statements -/

namespace Statement

/-- Under all its guards the statement opens an application on the line, and does not say which. -/
def LacksPath (s : Statement) (line : Nat) : Prop :=
  ∃ arguments, s.innermost = command "アプリケーションを開く" arguments line ∧
    arguments.get? "パス" = none

section

variable {σ : Type} (stage : Stage σ)

/-- The guards of the statement are met, each in the state that the ones around it leave. -/
def Reached : Statement → σ → Prop
  | dialogue _ _, _ => True
  | command _ _ _, _ => True
  | conditional condition body _ line, st =>
    ((performGuard condition line).on stage st).1 = true ∧
      body.Reached ((performGuard condition line).on stage st).2

/-- How a statement fails, and what it has shown by then. -/
structure Attempt (s : Statement) (st : σ) : Prop where
  fails : ∀ f : Failure, (s.perform.on stage st).1 = .error f ↔
    f.kind = .missingArgument "アプリケーションを開く" "パス" ∧ s.Reached stage st ∧
      s.LacksPath f.line
  /-- Only the run reports a failure. -/
  silent : ∀ e ∈ s.perform.seenOn stage st, e.isFailure = false
  /-- A failure comes before anything has reached the character or the machine. -/
  untouched : ∀ f : Failure, (s.perform.on stage st).1 = .error f →
    ∀ e ∈ s.perform.seenOn stage st, e.isSink = false

variable {stage}

/-- There is one line at most on which a statement lacks its path. -/
theorem LacksPath.line_eq {s : Statement} {k l : Nat} (hk : s.LacksPath k) (hl : s.LacksPath l) :
    k = l := by
  obtain ⟨a, ha, -⟩ := hk
  obtain ⟨b, hb, -⟩ := hl
  rw [ha] at hb
  exact (command.inj hb).2.2

theorem attempt_of_ok {s : Statement} {st : σ} {outcome : Outcome}
    (hok : (s.perform.on stage st).1 = .ok outcome)
    (hnot : s.Reached stage st → ∀ l, ¬s.LacksPath l)
    (hsilent : ∀ e ∈ s.perform.seenOn stage st, e.isFailure = false) : s.Attempt stage st where
  fails f := by
    constructor
    · intro h
      rw [hok] at h
      cases h
    · rintro ⟨-, hreached, hlacks⟩
      exact absurd hlacks (hnot hreached f.line)
  silent := hsilent
  untouched f h := by
    rw [hok] at h
    cases h

theorem attempt_dialogue {text : String} (htext : Scanner.Lexeme .string text.toList) (line : Nat)
    (st : σ) : (dialogue text line).Attempt stage st := by
  obtain ⟨t, ht, -⟩ := Scanner.lexeme_string.1 htext
  have hunmark : Text.unmark? text = some (String.ofList t) := by
    rw [Text.unmark?, ht, Text.unmarkChars?_between, Option.map_some]
  have hperform : (dialogue text line).perform = (do
      .debug s!"[line {line}] dialogue: {String.ofList t}"
      .perform (.say (String.ofList t))
      return .ok .executed) := by
    rw [perform, performDialogue, hunmark]
  have hvalue : ((dialogue text line).perform.on stage st).1 = .ok .executed := by simp [hperform]
  refine attempt_of_ok hvalue ?_ (by simp [hperform, Event.isFailure])
  rintro - l ⟨arguments, h, -⟩
  cases h

/-- A command of the table that is checked acts once. -/
theorem performKnown_of_check {known : Command} {call : CommandCall} {act : Act} (line : Nat)
    (hcheck : known.check call = .ok ()) (hact : known.action call = .ok act) (st : σ) :
    ((performKnown known call line).on stage st).1 = .ok .executed ∧
      (performKnown known call line).seenOn stage st = [.act act] := by
  rw [performKnown, hcheck]
  simp [hact, seenOn_noteUnaccepted]

theorem lacksPath_command {name : String} {arguments : Arguments} {line l : Nat} :
    (command name arguments line).LacksPath l ↔ name = Command.openApplication.name ∧ line = l ∧
      (CommandCall.ofArguments name arguments).get? Command.pathKey = none := by
  rw [CommandCall.get?_ofArguments, Option.map_eq_none_iff]
  constructor
  · rintro ⟨a, h, hpath⟩
    cases h
    exact ⟨rfl, rfl, hpath⟩
  · rintro ⟨rfl, rfl, hpath⟩
    exact ⟨arguments, rfl, hpath⟩

/-- A command that is not in the table is not the one that can lack its path. -/
theorem attempt_unknown {name : String} (hname : Command.lookup? name = none)
    (arguments : Arguments) (line : Nat) (st : σ) :
    (command name arguments line).Attempt stage st := by
  have hperform : (command name arguments line).perform =
      (do .report (.unknownCommand name line); return .ok .ignored) := by
    rw [perform, performCommand, hname]
  have hvalue : ((command name arguments line).perform.on stage st).1 = .ok .ignored := by
    simp [hperform]
  refine attempt_of_ok hvalue (fun _ l hlacks => ?_) (by simp [hperform, Event.isFailure])
  obtain ⟨rfl, -⟩ := lacksPath_command.1 hlacks
  exact absurd hname (by decide +kernel)

/-- Without its path the command that opens an application fails and shows nothing. -/
theorem attempt_lacking {arguments : Arguments} (line : Nat)
    (hlacks : (command Command.openApplication.name arguments line).LacksPath line)
    (hcheck : Command.openApplication.check (.ofArguments Command.openApplication.name arguments) =
      .error (.missingArgument Command.openApplication.name Command.pathKey)) (st : σ) :
    (command Command.openApplication.name arguments line).Attempt stage st := by
  have herror : (command Command.openApplication.name arguments line).perform =
      return .error ⟨.missingArgument Command.openApplication.name Command.pathKey, line⟩ := by
    have hlookup : Command.lookup? Command.openApplication.name =
        some Command.openApplication := rfl
    rw [perform, performCommand, hlookup]
    dsimp only
    rw [performKnown, hcheck]
  refine ⟨fun f => ?_, by simp [herror], fun f _ => by simp [herror]⟩
  rw [herror, Performance.on_pure]
  constructor
  · rintro ⟨⟩
    exact ⟨rfl, trivial, hlacks⟩
  · obtain ⟨kind, l⟩ := f
    rintro ⟨rfl, -, hl⟩
    obtain rfl : line = l := hlacks.line_eq hl
    rfl

theorem attempt_command (name : String) (arguments : Arguments) (line : Nat) (st : σ) :
    (command name arguments line).Attempt stage st := by
  cases hname : Command.lookup? name with
  | none => exact attempt_unknown hname arguments line st
  | some known =>
    have hknown : known ∈ Command.table := List.mem_of_find?_eq_some hname
    obtain rfl : known.name = name := by simpa using List.find?_some hname
    rcases Command.check_cases hknown (.ofArguments known.name arguments) with
      ⟨hcheck, hpath, act, hact⟩ | ⟨hcheck, rfl, hpath⟩
    · have hperform : (command known.name arguments line).perform =
          performKnown known (.ofArguments known.name arguments) line := by
        rw [perform, performCommand, hname]
      obtain ⟨hvalue, hseen⟩ := performKnown_of_check line hcheck hact st
      refine attempt_of_ok (hperform ▸ hvalue) (fun _ l hlacks => ?_) ?_
      · obtain ⟨hopen, -, hnone⟩ := lacksPath_command.1 hlacks
        have hlookup : Command.lookup? Command.openApplication.name =
            some Command.openApplication := rfl
        rw [hopen, hlookup] at hname
        exact hpath (Option.some.inj hname).symm hnone
      · have hsink := isSink_of_action hname hact
        rw [hperform, hseen]
        cases act <;> simp_all [Event.isSink, Event.isFailure]
    · exact attempt_lacking line (lacksPath_command.2 ⟨rfl, rfl, hpath⟩) hcheck st

/-- Guards fail in no way, and what a guard that is met shows reaches nothing. -/
theorem attempt_conditional (t : Tree) {body : Statement} (jump : Option String) (line : Nat)
    (hbody : ∀ st, body.Attempt stage st) (st : σ) :
    (conditional (.ofTree t) body jump line).Attempt stage st := by
  have hguard : ∀ e ∈ (performGuard (.ofTree t) line).seenOn stage st, e.isEvaluation = true :=
    fun e he => ((only_performGuard t line).of_mem he).isEvaluation
  have hsilent : ∀ e : Event, e.isEvaluation = true → e.isFailure = false ∧ e.isSink = false := by
    intro e he
    unfold Event.isEvaluation at he
    split at he
    · exact ⟨rfl, rfl⟩
    · exact ⟨rfl, rfl⟩
    · exact ⟨rfl, rfl⟩
    · cases he
  cases hmet : ((performGuard (.ofTree t) line).on stage st).1 with
  | true =>
    have hthen := hbody ((performGuard (.ofTree t) line).on stage st).2
    have hseen : (conditional (.ofTree t) body jump line).perform.seenOn stage st =
        (performGuard (.ofTree t) line).seenOn stage st ++
          body.perform.seenOn stage ((performGuard (.ofTree t) line).on stage st).2 := by
      rw [perform, Performance.seenOn_bind, hmet, if_pos rfl]
    have hvalue : ((conditional (.ofTree t) body jump line).perform.on stage st).1 =
        (body.perform.on stage ((performGuard (.ofTree t) line).on stage st).2).1 := by
      rw [perform, Performance.on_bind, hmet, if_pos rfl]
    refine ⟨fun f => ?_, fun e he => ?_, fun f hf e he => ?_⟩
    · rw [hvalue, hthen.fails f]
      simp only [Reached, hmet, true_and]
      rfl
    · rcases List.mem_append.1 (hseen ▸ he) with he | he
      · exact (hsilent e (hguard e he)).1
      · exact hthen.silent e he
    · rcases List.mem_append.1 (hseen ▸ he) with he | he
      · exact (hsilent e (hguard e he)).2
      · exact hthen.untouched f (hvalue ▸ hf) e he
  | false =>
    have hvalue : ((conditional (.ofTree t) body jump line).perform.on stage st).1 =
        .ok .skipped := by
      rw [perform, Performance.on_bind, hmet, if_neg Bool.false_ne_true, on_performSkip]
    have hseen : (conditional (.ofTree t) body jump line).perform.seenOn stage st =
        (performGuard (.ofTree t) line).seenOn stage st ++
          Guard.skipEvents ⟨.ofTree t, jump, line⟩ := by
      rw [perform, Performance.seenOn_bind, hmet, if_neg Bool.false_ne_true,
        ← seenOn_performSkip stage ⟨.ofTree t, jump, line⟩]
    refine attempt_of_ok hvalue (fun hreached => ?_) fun e he => ?_
    · rw [Reached, hmet] at hreached
      exact absurd hreached.1 Bool.false_ne_true
    · rcases List.mem_append.1 (hseen ▸ he) with he | he
      · exact (hsilent e (hguard e he)).1
      · obtain ⟨label, -, rfl⟩ := List.mem_map.1 he
        rfl

theorem Writable.attempt {s : Statement} (hs : s.Writable) (st : σ) : s.Attempt stage st := by
  induction s generalizing st with
  | dialogue text line => exact attempt_dialogue hs line st
  | command name arguments line => exact attempt_command name arguments line st
  | conditional condition body jump line ih =>
    obtain ⟨⟨t, rfl, -⟩, hbody, -⟩ := hs
    exact attempt_conditional t jump line (ih hbody) st

end

end Statement

/-! ## Runs -/

/-- How the turns of a run fail. -/
structure Program.FailsOnly {σ : Type} (p : Program) (stage : Stage σ) (st : σ) : Prop where
  /-- Every statement has one turn. -/
  turns : (p.turns stage st).map Turn.statement = p.statements
  /-- A turn shows what its statement shows, and then its failure. -/
  shown : p.perform.seenOn stage st = (p.turns stage st).flatMap fun turn =>
    turn.statement.perform.seenOn stage turn.state ++
      resultEvents (turn.statement.perform.on stage turn.state).1
  /-- A failure is reported for every statement that lacks its path, and for no other. -/
  failures : ∀ f : Failure, Event.act (.report (.failed f)) ∈ p.perform.seenOn stage st ↔
    f.kind = .missingArgument "アプリケーションを開く" "パス" ∧
      ∃ turn ∈ p.turns stage st,
        turn.statement.Reached stage turn.state ∧ turn.statement.LacksPath f.line
  attempts : ∀ turn ∈ p.turns stage st, turn.statement.Attempt stage turn.state
  /-- A command that is checked does not fail. -/
  checked : ∀ known ∈ Command.table, ∀ call : CommandCall, known.check call = .ok () →
    ∃ act, known.action call = .ok act

/-- **A script can fail in one way only**, whatever the stage answers: a statement whose guards are
    all met opens an application without a path. -/
theorem Program.failsOnly {source : String} {p : Program} (h : Program.parse source = .ok p)
    {σ : Type} (stage : Stage σ) (st : σ) : p.FailsOnly stage st := by
  have hattempts : ∀ turn ∈ p.turns stage st, turn.statement.Attempt stage turn.state :=
    fun turn hturn => (writable_of_parse h _ (mem_of_turn stage hturn)).attempt turn.state
  have hshown : p.perform.seenOn stage st = (p.turns stage st).flatMap fun turn =>
      turn.statement.perform.seenOn stage turn.state ++
        resultEvents (turn.statement.perform.on stage turn.state).1 := by
    rw [p.seenOn_perform]
    exact congrArg (fun f => List.flatMap f (p.turns stage st))
      (funext fun turn => turn.statement.seenOn_performTurn stage turn.state)
  refine ⟨p.map_statement_turns stage st, hshown, fun f => ?_, hattempts,
    fun known hknown call => Command.exists_action_of_check hknown⟩
  rw [hshown, List.mem_flatMap]
  constructor
  · rintro ⟨turn, hturn, hf⟩
    have hattempt := hattempts turn hturn
    rcases List.mem_append.1 hf with hf | hf
    · exact absurd (hattempt.silent _ hf) (by simp [Event.isFailure])
    · cases hresult : (turn.statement.perform.on stage turn.state).1 with
      | ok outcome => simp [hresult, resultEvents] at hf
      | error failure =>
        obtain rfl : f = failure := by simpa [hresult, resultEvents] using hf
        obtain ⟨hkind, hreached, hlacks⟩ := (hattempt.fails f).1 hresult
        exact ⟨hkind, turn, hturn, hreached, hlacks⟩
  · rintro ⟨hkind, turn, hturn, hreached, hlacks⟩
    refine ⟨turn, hturn, List.mem_append_right _ ?_⟩
    rw [((hattempts turn hturn).fails f).2 ⟨hkind, hreached, hlacks⟩, resultEvents]
    exact List.mem_singleton.2 rfl

/-- Two guards, one with a diagnostic of its own, around a command with an argument under another
    key, and a command without arguments. -/
theorem Program.failsOnly_guarded : ∃ p, Program.parse
      "※true\n※ない または true\nアプリケーションを開く 先：「a」\n「はい」\nアプリケーションを開く" = .ok p ∧
    p.FailsOnly .recording .empty ∧ (p.perform.seenOn .recording .empty).filter Event.isFailure =
      [3, 5].map fun line => .act (.report (.failed
        ⟨.missingArgument "アプリケーションを開く" "パス", line⟩)) := by
  have hfailures : (Program.parse
      "※true\n※ない または true\nアプリケーションを開く 先：「a」\n「はい」\nアプリケーションを開く").map
        (fun p => (p.perform.seenOn .recording .empty).filter Event.isFailure) =
      .ok ([3, 5].map fun line => .act (.report (.failed
        ⟨.missingArgument "アプリケーションを開く" "パス", line⟩))) := by
    decide +kernel
  cases h : Program.parse
      "※true\n※ない または true\nアプリケーションを開く 先：「a」\n「はい」\nアプリケーションを開く" with
  | ok p =>
    rw [h] at hfailures
    exact ⟨p, rfl, Program.failsOnly h .recording .empty, Except.ok.inj hfailures⟩
  | error e =>
    rw [h] at hfailures
    cases hfailures

end StageScript
