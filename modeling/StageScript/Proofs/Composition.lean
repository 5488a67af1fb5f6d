import StageScript.Proofs.Accounting
import StageScript.Proofs.Continuation

set_option autoImplicit false

/-! # Scripts one after the other

Two scripts with a newline between them are one script: it has the statements of both, those of the
second one further down, and it does what the first does and then what the second does on the same
stage. Nothing but the lines of its diagnostics tells a statement where it stands
(`Statement.perform_mapLines`), and no statement leaves anything behind for the next. Main
statement: `Program.composes`. -/

namespace StageScript

/-! ## Events on other lines -/

def Failure.mapLines (f : Nat → Nat) (failure : Failure) : Failure :=
  { failure with line := f failure.line }

def Diagnostic.mapLines (f : Nat → Nat) : Diagnostic → Diagnostic
  | .unknownCommand name line => .unknownCommand name (f line)
  | .unknownFunction name line => .unknownFunction name (f line)
  | .coercion error line => .coercion error (f line)
  | .ignoredJump label line => .ignoredJump label (f line)
  | .failed failure => .failed (failure.mapLines f)

/-- Only diagnostics know of lines. -/
def Event.mapLines (f : Nat → Nat) : Event → Event
  | .act (.report d) => .act (.report (d.mapLines f))
  | e => e

section MapLines

variable (f : Nat → Nat) (answer : Query → Float)

theorem Event.mapLines_of_isSink {e : Event} (h : e.isSink = true) : e.mapLines f = e := by
  match e, h with
  | .act (.say _), _ | .act (.blockInput _), _ | .act (.openPath _), _ => rfl

theorem CoercionError.map_event (line : Nat) (errors : List CoercionError) :
    (errors.map (CoercionError.event line)).map (Event.mapLines f) =
      errors.map (CoercionError.event (f line)) := by
  rw [List.map_map]
  rfl

/-! ## Expressions -/

theorem TreeArguments.find?_mapLines (key : String) (a : TreeArguments) :
    (a.mapLines f).find? key = (a.find? key).map (Tree.mapLines f) := by
  match a with
  | .nil => rfl
  | .cons k value rest =>
    rw [mapLines, find?, find?]
    split
    · rfl
    · exact find?_mapLines key rest

theorem BuiltIn.choose?_mapLines (g : BuiltIn) (a : TreeArguments) :
    g.choose? (a.mapLines f) = (g.choose? a).map (Tree.mapLines f) := by
  rw [choose?, choose?]
  cases g.parameter with
  | none => rfl
  | some parameter =>
    dsimp only
    rw [TreeArguments.find?_mapLines]
    cases a.find? parameter with
    | some t => rfl
    | none => cases a <;> rfl

/-- The value of a tree does not depend on its lines, and its events do so in their diagnostics. -/
theorem Tree.evaluate_mapLines (t : Tree) :
    (t.mapLines f).evaluate.value answer = t.evaluate.value answer ∧
      (t.mapLines f).evaluate.events answer =
        (t.evaluate.events answer).map (Event.mapLines f) := by
  induction t using Tree.evaluated_induct with
  | atom literal line => simp [mapLines, evaluate]
  | group inner ih => rwa [mapLines, evaluate, evaluate]
  | join o lhs rhs ihl ihr =>
    rw [mapLines_join, evaluate_join, evaluate_join, line_mapLines]
    simp only [Performance.value_bind, Performance.events_bind, Operator.events_apply, ihl, ihr,
      List.map_append, CoercionError.map_event, and_true]
    cases o <;> simp [Operator.apply, Comparison.apply, Connective.apply]
  | unknown name arguments line hname =>
    rw [mapLines, evaluate_unknown hname, evaluate_unknown hname]
    exact ⟨rfl, rfl⟩
  | bare name arguments line g hname hchoose =>
    have hmoved : g.choose? (arguments.mapLines f) = none := by
      rw [BuiltIn.choose?_mapLines, hchoose, Option.map_none]
    rw [mapLines, evaluate_bare hname hmoved, evaluate_bare hname hchoose]
    exact ⟨rfl, rfl⟩
  | argument name arguments line g t hname hchoose ih =>
    have hmoved : g.choose? (arguments.mapLines f) = some (t.mapLines f) := by
      rw [BuiltIn.choose?_mapLines, hchoose, Option.map_some]
    rw [mapLines, evaluate_argument hname hmoved, evaluate_argument hname hchoose]
    simp only [Performance.value_bind, Performance.events_bind, ih, List.map_append]
    exact ⟨rfl, rfl⟩

/-! ## Statements -/

namespace Statement

theorem perform_mapLines_command (name : String) (arguments : Arguments) (line : Nat) :
    (performCommand name arguments (f line)).value answer =
        ((performCommand name arguments line).value answer).mapError (Failure.mapLines f) ∧
      (performCommand name arguments (f line)).events answer =
        ((performCommand name arguments line).events answer).map (Event.mapLines f) := by
  rw [performCommand, performCommand]
  cases hname : Command.lookup? name with
  | none => exact ⟨rfl, rfl⟩
  | some known =>
    dsimp only
    rw [performKnown, performKnown]
    cases known.check (.ofArguments name arguments) with
    | error kind => exact ⟨rfl, rfl⟩
    | ok _ =>
      cases hact : known.action (.ofArguments name arguments) with
      | error kind =>
        simp only [Performance.value_bind, Performance.events_bind, events_noteUnaccepted,
          Performance.events_debug]
        exact ⟨rfl, rfl⟩
      | ok act =>
        have hsame := Event.mapLines_of_isSink f (isSink_of_action hname hact)
        simp only [Performance.value_bind, Performance.events_bind, events_noteUnaccepted,
          Performance.events_debug, Performance.events_perform, List.map_append, List.map_cons,
          hsame]
        exact ⟨rfl, rfl⟩

theorem performGuard_mapLines (t : Tree) (line : Nat) :
    (performGuard ((Expression.ofTree t).mapLines f) (f line)).value answer =
        (performGuard (.ofTree t) line).value answer ∧
      (performGuard ((Expression.ofTree t).mapLines f) (f line)).events answer =
        ((performGuard (.ofTree t) line).events answer).map (Event.mapLines f) := by
  obtain ⟨hvalue, hevents⟩ := t.evaluate_mapLines f answer
  rw [← Expression.ofTree_mapLines, performGuard, performGuard, Expression.evaluate_ofTree,
    Expression.evaluate_ofTree]
  simp only [Performance.value_bind, Performance.events_bind, Value.value_coerceBool,
    Value.events_coerceBool, hvalue, hevents, List.map_append, CoercionError.map_event, true_and]
  rfl

/-- A statement comes out the same on other lines, and its events differ in their diagnostics. -/
theorem perform_mapLines {st : Statement} (h : st.Writable) :
    (st.mapLines f).perform.value answer =
        (st.perform.value answer).mapError (Failure.mapLines f) ∧
      (st.mapLines f).perform.events answer =
        (st.perform.events answer).map (Event.mapLines f) := by
  induction st with
  | dialogue text line =>
    rw [mapLines, perform, perform, performDialogue, performDialogue]
    cases Text.unmark? text <;> exact ⟨rfl, rfl⟩
  | command name arguments line => exact perform_mapLines_command f answer name arguments line
  | conditional condition body jump line ih =>
    obtain ⟨⟨t, rfl, -⟩, hbody, -⟩ := h
    obtain ⟨hguard, hguards⟩ := performGuard_mapLines f answer t line
    obtain ⟨hvalue, hevents⟩ := ih hbody
    rw [mapLines, perform, perform]
    simp only [Performance.value_bind, Performance.events_bind, hguard, hguards, List.map_append]
    by_cases hmet : (performGuard (.ofTree t) line).value answer = true
    · rw [if_pos hmet, if_pos hmet, hvalue, hevents]
      exact ⟨rfl, rfl⟩
    · rw [if_neg hmet, if_neg hmet]
      cases jump <;> exact ⟨rfl, rfl⟩

theorem recorded_mapLines {st : Statement} (h : st.Writable) :
    (st.mapLines f).recorded answer = (st.recorded answer).map (Event.mapLines f) := by
  obtain ⟨hvalue, hevents⟩ := perform_mapLines f answer h
  rw [recorded, recorded, hvalue, hevents, List.map_append]
  cases st.perform.value answer <;> rfl

end Statement

end MapLines

/-! ## Tallies -/

namespace Tally

/-- The sums of the counts. -/
def add (s t : Tally) : Tally :=
  ⟨s.executed + t.executed, s.skipped + t.skipped, s.ignored + t.ignored, s.failed + t.failed⟩

theorem add_zero (t : Tally) : t.add zero = t := rfl

/-- A count goes to either part of a sum. -/
theorem add_count (s t : Tally) (result : Except Failure Outcome) :
    (s.add t).count result = s.add (t.count result) := by
  rcases result with _ | outcome
  · rfl
  · cases outcome <;> rfl

theorem count_mapError (t : Tally) (g : Failure → Failure) (result : Except Failure Outcome) :
    t.count (result.mapError g) = t.count result := by
  cases result <;> rfl

theorem foldl_count_add {α : Type} (g : α → Except Failure Outcome) (xs : List α) (s t : Tally) :
    xs.foldl (fun u x => u.count (g x)) (s.add t) =
      s.add (xs.foldl (fun u x => u.count (g x)) t) := by
  induction xs generalizing t with
  | nil => rfl
  | cons x xs ih => rw [List.foldl_cons, List.foldl_cons, add_count, ih]

end Tally

/-! ## Programs -/

namespace Program

/-- A program of statements and then others on other lines does the one and then the other. -/
theorem onRecording_append (a : Program) {b : Program} (hb : ∀ st ∈ b.statements, st.Writable)
    (f : Nat → Nat) (r : Recording) :
    ∃ (s t : Tally) (es es' : List Event), a.perform.onRecording r = (s, r.append es) ∧
      b.perform.onRecording r = (t, r.append es') ∧
      (⟨a.statements ++ b.statements.map (Statement.mapLines f)⟩ : Program).perform.onRecording r =
        (s.add t, r.append (es ++ es'.map (Event.mapLines f))) := by
  refine ⟨_, _, _, _, a.onRecording_perform r, b.onRecording_perform r, ?_⟩
  rw [onRecording_perform, List.foldl_append, List.flatMap_append, List.foldl_map, List.flatMap_map,
    List.map_flatMap]
  have hcount : ∀ t : Tally,
      b.statements.foldl (fun t st => t.count ((st.mapLines f).perform.value r.answer)) t =
        b.statements.foldl (fun t st => t.count (st.perform.value r.answer)) t := by
    intro t
    refine List.foldl_ext _ _ _ fun u st hst => ?_
    rw [(Statement.perform_mapLines f r.answer (hb st hst)).1, Tally.count_mapError]
  have hrecorded : b.statements.flatMap (fun st => (st.mapLines f).recorded r.answer) =
      b.statements.flatMap fun st => (st.recorded r.answer).map (Event.mapLines f) := by
    refine List.flatMap_congr fun st hst => ?_
    exact Statement.recorded_mapLines f r.answer (hb st hst)
  rw [hcount, hrecorded, ← Tally.foldl_count_add, Tally.add_zero]

/-! ## Scripts -/

/-- A script that is parsed is a stream of tokens before the end of its file. -/
theorem exists_tokens_of_parse {source : String} {p : Program} (h : parse source = .ok p) :
    ∃ (us : List Token) (fin rest : Stream), (∀ u ∈ us, u.kind ≠ .endOfFile) ∧ fin.items = [] ∧
      Stream.ofString source = fin.prepend us ∧
      Parser.statements (fin.prepend us) = .ok p.statements rest := by
  obtain ⟨rest, hrun⟩ := parse_eq_ok.1 h
  obtain ⟨e, he, hek, us, hus, -⟩ := Parser.statements_derives hrun
  have hnil := Stream.items_eq_nil_of_ofText hus he hek
  refine ⟨us, rest, rest, fun u hu => ?_, hnil, hus, hus ▸ hrun⟩
  have hmem : Item.token u ∈ (Stream.ofText source.toList).items := by
    change Item.token u ∈ (Stream.ofString source).items
    rw [hus]
    exact List.mem_append_left _ (List.mem_map_of_mem hu)
  exact Stream.kind_ne_endOfFile hmem

/-- The statements of two scripts with a newline between them. -/
theorem parse_append {A B : String} {a b : Program} (hA : parse A = .ok a) (hB : parse B = .ok b) :
    parse (A ++ "\n" ++ B) = .ok ⟨a.statements ++
      b.statements.map (Statement.mapLines (· + (A.toList.count '\n' + 1)))⟩ := by
  obtain ⟨us, finA, restA, hus, hfinA, hstreamA, hrunA⟩ := exists_tokens_of_parse hA
  obtain ⟨vs, finB, restB, hvs, hfinB, hstreamB, hrunB⟩ := exists_tokens_of_parse hB
  obtain ⟨n, items, hn, hitems, hmoved⟩ := Stream.items_ofText_append A.toList B.toList
  have htext : (A ++ "\n" ++ B).toList = A.toList ++ '\n' :: B.toList := by simp
  have hitemsA : (Stream.ofText A.toList).items = us.map .token := by
    change (Stream.ofString A).items = _
    rw [hstreamA, Stream.prepend, hfinA, List.append_nil]
  have hitemsB : (Stream.ofText B.toList).items = vs.map .token := by
    change (Stream.ofString B).items = _
    rw [hstreamB, Stream.prepend, hfinB, List.append_nil]
  rw [hitemsB] at hmoved
  obtain ⟨ws, rfl, hws⟩ := exists_of_moved_tokens hmoved
  -- the end of the joined file takes the place of that of `B`, and the line of `B` that of `A`
  let whole := Stream.ofString (A ++ "\n" ++ B)
  let fin : Stream := ⟨[], whole.stop, whole.stopLine⟩
  have hwhole : whole = (fin.prepend (n :: ws)).prepend us := by
    have : whole.items = us.map .token ++ .token n :: ws.map .token := by
      rw [← hitemsA, ← hitems, ← htext]
      rfl
    rw [Stream.prepend_prepend, Stream.prepend, List.map_append, List.map_cons, List.append_nil,
      ← this]
  have hend : fin.head = .token fin.finish := rfl
  have hfin : Parser.statements fin = .ok [] fin :=
    Parser.statements_eq_ok.2 ⟨fin.finish, hend, .inr (.inl ⟨rfl, rfl, rfl⟩)⟩
  have hnextB : fin.NextLine := ⟨⟨_, hend, .inr rfl⟩, Parser.closes_of_statements hfin⟩
  have hwsrun := Parser.statements_moved hfinB hnextB hws hrunB hfin
  have hline : Parser.statements (fin.prepend (n :: ws)) = .ok _ fin :=
    Parser.statements_eq_ok.2 ⟨n, rfl, .inl ⟨hn, hwsrun⟩⟩
  have hnextA : (fin.prepend (n :: ws)).NextLine :=
    ⟨⟨n, rfl, .inl hn⟩, Parser.closes_of_statements hline⟩
  have hself : List.Forall₂ (Token.Moved id) us us :=
    List.forall₂_same.2 fun u hu => ⟨hus u hu, rfl, rfl, rfl⟩
  have hrun := Parser.statements_moved hfinA hnextA hself hrunA hline
  have hid : a.statements.map (Statement.mapLines id) = a.statements := by
    rw [funext Statement.mapLines_id, List.map_id']
  rw [← hwhole, hid, List.append_nil] at hrun
  exact parse_eq_ok.2 ⟨fin, hrun⟩

/-- Two scripts with a newline between them, which are the programs `a` and `b` by themselves. -/
structure Composes (A B : String) (a b : Program) : Prop where
  /-- They have the statements of the one, and then those of the other further down. -/
  parse_eq : parse (A ++ "\n" ++ B) = .ok ⟨a.statements ++
    b.statements.map (Statement.mapLines (· + (A.toList.count '\n' + 1)))⟩
  /-- On any stage they do what the one does and then what the other does on the same stage, with
      its diagnostics further down. -/
  runs : ∀ r : Recording, ∃ (s t : Tally) (es es' : List Event),
    (Performance.ofSource A).map (·.onRecording r) = .ok (s, r.append es) ∧
    (Performance.ofSource B).map (·.onRecording r) = .ok (t, r.append es') ∧
    (Performance.ofSource (A ++ "\n" ++ B)).map (·.onRecording r) = .ok (s.add t,
      r.append (es ++ es'.map (Event.mapLines (· + (A.toList.count '\n' + 1)))))

/-- **Scripts compose.** No statement of the second script is taken for a part of the first, and
    nothing is left over from the run of the first. -/
theorem composes {A B : String} {a b : Program} (hA : parse A = .ok a) (hB : parse B = .ok b) :
    Composes A B a b := by
  have hparse := parse_append hA hB
  refine ⟨hparse, fun r => ?_⟩
  obtain ⟨s, t, es, es', ha, hb, hab⟩ := onRecording_append a (writable_of_parse hB)
    (· + (A.toList.count '\n' + 1)) r
  refine ⟨s, t, es, es', ?_, ?_, ?_⟩
  · rw [Performance.ofSource, hA]
    exact congrArg Except.ok ha
  · rw [Performance.ofSource, hB]
    exact congrArg Except.ok hb
  · rw [Performance.ofSource, hparse]
    exact congrArg Except.ok hab

/-- The first script ends in a guarded statement and a comment, where a jump could still follow. -/
theorem composes_guarded :
    ∃ a b, parse "※家＝１\n「はい」# 終" = .ok a ∧ parse "\n謎\n※家 「いいえ」\n→先" = .ok b ∧
      Composes "※家＝１\n「はい」# 終" "\n謎\n※家 「いいえ」\n→先" a b := by
  have exists_of_isOk : ∀ source : String, (parse source).isOk = true →
      ∃ p, parse source = .ok p := by
    intro source hok
    cases h : parse source with
    | ok p => exact ⟨p, rfl⟩
    | error e =>
      rw [h] at hok
      cases hok
  obtain ⟨a, ha⟩ := exists_of_isOk "※家＝１\n「はい」# 終" (by decide +kernel)
  obtain ⟨b, hb⟩ := exists_of_isOk "\n謎\n※家 「いいえ」\n→先" (by decide +kernel)
  exact ⟨a, b, ha, hb, composes ha hb⟩

end Program

end StageScript
