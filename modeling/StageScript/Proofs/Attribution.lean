import StageScript.Proofs.Failures
import StageScript.Proofs.LineOrder

set_option autoImplicit false

/-! # The lines of diagnostics

A statement reports on its own lines: what a guard reports is on the line of the guard, and what
stands under it is not before it, so that the lines of the diagnostics never go back
(`Statement.Lined.inLines`). Statements stand one behind the other, and so do the diagnostics of a
run. Main statement: `Program.attributed`. -/

namespace StageScript

/-! ## Lines of reports -/

def Event.reportLine? : Event → Option Nat
  | .act (.report d) => some d.line
  | _ => none

/-- The lines of the diagnostics in the order in which they are reported. -/
def reportLines (es : List Event) : List Nat := es.filterMap Event.reportLine?

@[simp] theorem reportLines_append (es fs : List Event) :
    reportLines (es ++ fs) = reportLines es ++ reportLines fs := List.filterMap_append

theorem reportLines_flatMap {α : Type} (f : α → List Event) (xs : List α) :
    reportLines (xs.flatMap f) = xs.flatMap fun x => reportLines (f x) := List.filterMap_flatMap

/-- The diagnostics are on lines from the first to the last one, in the order of the lines. -/
structure InLines (first last : Nat) (es : List Event) : Prop where
  within : ∀ k ∈ reportLines es, first ≤ k ∧ k ≤ last
  sorted : (reportLines es).Pairwise (· ≤ ·)

/-- If the event is a diagnostic, it is on the line. -/
def Event.OnLine (line : Nat) (e : Event) : Prop := ∀ k, e.reportLine? = some k → k = line

theorem Event.EvaluatesOn.onLine {line : Nat} {lines : List Nat} {e : Event}
    (h : e.EvaluatesOn lines) (hlines : ∀ k ∈ lines, k = line) : e.OnLine line := by
  intro k hk
  unfold EvaluatesOn at h
  split at h
  · cases hk
  · cases hk
    exact hlines _ h
  · cases hk
    exact hlines _ h
  · exact h.elim

namespace InLines

variable {first middle last : Nat} {es fs : List Event}

theorem of_onLine {line : Nat} (h : ∀ e ∈ es, e.OnLine line) : InLines line line es := by
  have hline : ∀ k ∈ reportLines es, k = line := by
    intro k hk
    obtain ⟨e, he, hek⟩ := List.mem_filterMap.1 hk
    exact h e he k hek
  refine ⟨fun k hk => ?_, List.pairwise_of_forall_mem_list fun k hk l hl => ?_⟩
  · obtain rfl := hline k hk
    exact ⟨Nat.le_refl _, Nat.le_refl _⟩
  · rw [hline k hk, hline l hl]

theorem weaken {first' last' : Nat} (h : InLines first last es) (hfirst : first' ≤ first)
    (hlast : last ≤ last') : InLines first' last' es :=
  ⟨fun k hk => ⟨hfirst.trans (h.within k hk).1, (h.within k hk).2.trans hlast⟩, h.sorted⟩

theorem append (h : InLines first middle es) (h' : InLines middle last fs)
    (hle : first ≤ middle) (hle' : middle ≤ last) : InLines first last (es ++ fs) := by
  refine ⟨fun k hk => ?_, ?_⟩
  · rw [reportLines_append] at hk
    rcases List.mem_append.1 hk with hk | hk
    · exact ⟨(h.within k hk).1, (h.within k hk).2.trans hle'⟩
    · exact ⟨hle.trans (h'.within k hk).1, (h'.within k hk).2⟩
  · rw [reportLines_append, List.pairwise_append]
    exact ⟨h.sorted, h'.sorted, fun k hk l hl => (h.within k hk).2.trans (h'.within l hl).1⟩

end InLines

/-! ## Statements -/

namespace Statement

variable {σ : Type} {stage : Stage σ}

theorem only_performDialogue (text : String) (line : Nat) :
    (performDialogue text line).Only (Event.OnLine line) := by
  rw [performDialogue]
  split
  · exact .pure _
  · exact (Performance.Only.debug _).bind fun _ =>
      Performance.Only.bind ⟨by simp [Event.OnLine, Event.reportLine?], trivial⟩ fun _ => .pure _

theorem only_noteUnaccepted {P : Event → Prop} (known : Command) (line : Nat) (keys : List String) :
    (noteUnaccepted known line keys).Only P := by
  induction keys with
  | nil => exact .pure _
  | cons key keys ih =>
    rw [noteUnaccepted]
    split
    · exact (Performance.Only.debug _).bind fun _ => ih
    · exact ih

theorem only_performCommand (name : String) (arguments : Arguments) (line : Nat) :
    (performCommand name arguments line).Only (Event.OnLine line) := by
  rw [performCommand]
  split
  · refine Performance.Only.bind ⟨?_, trivial⟩ fun _ => .pure _
    rintro k ⟨⟩
    rfl
  · next known hname =>
    rw [performKnown]
    split
    · exact .pure _
    · refine (only_noteUnaccepted _ _ _).bind fun _ => (Performance.Only.debug _).bind fun _ => ?_
      split
      · exact .pure _
      · next act hact =>
        -- what a command of the table does is no report
        have hsink := isSink_of_action hname hact
        refine Performance.Only.bind ⟨fun k hk => ?_, trivial⟩ fun _ => .pure _
        cases act <;> simp [Event.isSink, Event.reportLine?] at hsink hk

/-- A failure is on the line of what stands under all the guards. -/
theorem Attempt.line_eq {s : Statement} {st : σ} (h : s.Attempt stage st) {f : Failure}
    (hf : (s.perform.on stage st).1 = .error f) : f.line = s.innermost.line := by
  obtain ⟨-, -, arguments, hinner, -⟩ := (h.fails f).1 hf
  rw [hinner, line]

theorem Lined.inLines_perform {s : Statement} (hs : s.Lined) (st : σ) :
    InLines s.line s.innermost.line (s.perform.seenOn stage st) := by
  induction s generalizing st with
  | dialogue text line => exact .of_onLine fun _ => (only_performDialogue text line).of_mem
  | command name arguments line =>
    exact .of_onLine fun _ => (only_performCommand name arguments line).of_mem
  | conditional condition body jump line ih =>
    have hlast := hs.2.2.line_le
    obtain ⟨⟨t, rfl, hlines⟩, hle, hbody⟩ := hs
    have hguard : InLines line line ((performGuard (.ofTree t) line).seenOn stage st) :=
      .of_onLine fun e he => ((only_performGuard t line).of_mem he).onLine (by simpa using hlines)
    have hend := hle.trans hlast
    rw [perform, Performance.seenOn_bind]
    split
    · exact hguard.append ((ih hbody _).weaken hle (Nat.le_refl _)) (Nat.le_refl _) hend
    · rw [seenOn_performSkip stage ⟨.ofTree t, jump, line⟩]
      refine (hguard.append (.of_onLine fun e he k hk => ?_) (Nat.le_refl _) (Nat.le_refl _)).weaken
        (Nat.le_refl _) hend
      obtain ⟨label, -, rfl⟩ := List.mem_map.1 he
      exact (Option.some.inj hk).symm

/-- What a statement reports in its turn is on its lines, and a failure comes last. -/
theorem Lined.inLines {s : Statement} (hs : s.Lined) {st : σ} (hattempt : s.Attempt stage st) :
    InLines s.line s.innermost.line (s.performTurn.seenOn stage st) := by
  rw [seenOn_performTurn]
  refine (hs.inLines_perform st).append (.of_onLine fun e he k hk => ?_) hs.line_le (Nat.le_refl _)
  cases hresult : (s.perform.on stage st).1 with
  | ok outcome => simp [hresult, resultEvents] at he
  | error failure =>
    obtain rfl : e = .act (.report (.failed failure)) := by simpa [hresult, resultEvents] using he
    obtain rfl : failure.line = k := Option.some.inj hk
    exact hattempt.line_eq hresult

end Statement

/-! ## Runs -/

/-- The lines of a script and of what its run reports. -/
structure Program.Attributed {σ : Type} (p : Program) (stage : Stage σ) (st : σ) : Prop where
  increasing : p.statements.Pairwise fun s later => s.line < later.line
  inOrder : ∀ s ∈ p.statements, s.InOrder
  /-- Every statement has one turn. -/
  turns : (p.turns stage st).map Turn.statement = p.statements
  /-- All that is seen of the run is seen in one of the turns. -/
  shown : p.perform.seenOn stage st = (p.turns stage st).flatMap (Turn.seen stage)
  sorted : (reportLines (p.perform.seenOn stage st)).Pairwise (· ≤ ·)
  /-- A statement reports nothing before its line. -/
  le_of_report : ∀ turn ∈ p.turns stage st,
    ∀ k ∈ reportLines (turn.seen stage), turn.statement.line ≤ k
  /-- A statement reports everything before the lines of the statements behind it. -/
  lt_of_report : (p.turns stage st).Pairwise fun turn later =>
    ∀ k ∈ reportLines (turn.seen stage), k < later.statement.line

/-- **Diagnostics are on the lines of their statements**, whatever the stage answers, and are
    reported in the order of the lines. -/
theorem Program.attributed {source : String} {p : Program} (h : Program.parse source = .ok p)
    {σ : Type} (stage : Stage σ) (st : σ) : p.Attributed stage st := by
  obtain ⟨hlined, hbehind⟩ := lined_of_parse h
  have hturns := p.map_statement_turns stage st
  have hseen : ∀ turn ∈ p.turns stage st,
      InLines turn.statement.line turn.statement.innermost.line (turn.seen stage) := by
    intro turn hturn
    have hs := mem_of_turn stage hturn
    exact (hlined _ hs).inLines ((writable_of_parse h _ hs).attempt turn.state)
  have hnext : (p.turns stage st).Pairwise fun turn later =>
      turn.statement.innermost.line < later.statement.line := by
    rw [← hturns, List.pairwise_map] at hbehind
    exact hbehind
  refine ⟨?_, fun s hs => (hlined s hs).inOrder, hturns, p.seenOn_perform stage st, ?_,
    fun turn hturn k hk => ((hseen turn hturn).within k hk).1, ?_⟩
  · refine hbehind.imp_of_mem fun hs _ hlt => ?_
    exact Nat.lt_of_le_of_lt (hlined _ hs).line_le hlt
  · rw [p.seenOn_perform, reportLines_flatMap, List.pairwise_flatMap]
    refine ⟨fun turn hturn => (hseen turn hturn).sorted, ?_⟩
    refine hnext.imp_of_mem fun hturn hlater hlt k hk l hl => ?_
    have hle := ((hseen _ hturn).within k hk).2
    have hle' := ((hseen _ hlater).within l hl).1
    omega
  · refine hnext.imp_of_mem fun hturn _ hlt k hk => ?_
    exact Nat.lt_of_le_of_lt ((hseen _ hturn).within k hk).2 hlt

/-- An unknown command, one guard under another with a jump on a later line, and a failure. -/
theorem Program.attributed_guarded : ∃ p, Program.parse
      "ない\n※ない または true\n※ない かつ true\n\n「はい」\n→先\nアプリケーションを開く" = .ok p ∧
    p.Attributed .recording .empty ∧
    reportLines (p.perform.seenOn .recording .empty) = [1, 2, 3, 3, 7] := by
  have hlines : (Program.parse
      "ない\n※ない または true\n※ない かつ true\n\n「はい」\n→先\nアプリケーションを開く").map
        (fun p => reportLines (p.perform.seenOn .recording .empty)) = .ok [1, 2, 3, 3, 7] := by
    decide +kernel
  cases h : Program.parse
      "ない\n※ない または true\n※ない かつ true\n\n「はい」\n→先\nアプリケーションを開く" with
  | ok p =>
    rw [h] at hlines
    exact ⟨p, rfl, Program.attributed h .recording .empty, Except.ok.inj hlines⟩
  | error e =>
    rw [h] at hlines
    cases hlines

end StageScript
