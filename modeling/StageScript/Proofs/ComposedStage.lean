import StageScript.Proofs.Trace
import StageScript.Stage.Host

set_option autoImplicit false

/-! # Composed stages

A composed stage takes every act and every question to the part that it concerns. With four
recorders for its parts it holds the event list of one recording stage, cut into four; with a log
in the place of two of them it writes what those two would have recorded. What the log leaves out
changes nothing else (`Performance.onHost_filtered`). Main statement: `Program.hosted`. -/

namespace StageScript

/-! ## The log -/

namespace Host

/-- The stage whose log has been kept to a level of detail all along. -/
def filtered (f : LogFilter) (h : Host) : Host :=
  { h with filter := f, records := h.records.filter f.keeps }

variable {h : Host} (hall : h.filter = some .debug) (f : LogFilter)

/-- A log of full detail keeps every record. -/
theorem keeps_debug (r : LogRecord) : LogFilter.keeps (some .debug) r = true := by
  obtain ⟨level, message⟩ := r
  cases level <;> rfl

include hall

theorem note_eq (r : LogRecord) : h.note r = { h with records := h.records.push r } := by
  rw [note, hall, if_pos (keeps_debug r)]

theorem note_filtered (r : LogRecord) : (h.filtered f).note r = (h.note r).filtered f := by
  rw [note_eq hall]
  by_cases hr : f.keeps r = true
  · simp [note, filtered, hr]
  · simp [note, filtered, hr]

theorem perform_filtered (a : Act) : (h.filtered f).perform a = (h.perform a).filtered f := by
  obtain ⟨dialogue, actions, environment, diagnostics, filter, records⟩ := h
  cases a with
  | say text => cases dialogue <;> rfl
  | blockInput blocked =>
    cases actions with
    | recorder r => rfl
    | dryRun => exact note_filtered hall f _
    | machine launcher => exact note_filtered hall f _
  | openPath path =>
    cases actions with
    | recorder r => rfl
    | dryRun => exact note_filtered hall f _
    | machine launcher => exact note_filtered hall f _
  | report d =>
    cases diagnostics with
    | recorder r => rfl
    | log => exact note_filtered hall f _

theorem answer_filtered (q : Query) :
    (h.filtered f).answer q = ((h.answer q).1, (h.answer q).2.filtered f) := by
  obtain ⟨dialogue, actions, environment, diagnostics, filter, records⟩ := h
  cases environment with
  | recorder r => rfl
  | machine folder time =>
    cases q with
    | clock => rfl
    | directory path =>
      simp only [answer, filtered]
      cases folder.countAt path with
      | ok entries => rfl
      | error reason => exact congrArg (Prod.mk 0.0) (note_filtered hall f _)

omit hall

/-- No move changes what the log keeps. -/
theorem filter_note (h : Host) (r : LogRecord) : (h.note r).filter = h.filter := by
  rw [note]
  split <;> rfl

theorem filter_perform (h : Host) (a : Act) : (h.perform a).filter = h.filter := by
  obtain ⟨dialogue, actions, environment, diagnostics, filter, records⟩ := h
  cases a with
  | say text => cases dialogue <;> rfl
  | blockInput blocked => cases actions <;> first | rfl | exact filter_note _ _
  | openPath path => cases actions <;> first | rfl | exact filter_note _ _
  | report d => cases diagnostics <;> first | rfl | exact filter_note _ _

theorem filter_answer (h : Host) (q : Query) : (h.answer q).2.filter = h.filter := by
  obtain ⟨dialogue, actions, environment, diagnostics, filter, records⟩ := h
  cases environment with
  | recorder r => rfl
  | machine folder time =>
    cases q with
    | clock => rfl
    | directory path =>
      simp only [answer]
      cases folder.countAt path with
      | ok entries => rfl
      | error reason => exact filter_note _ _

end Host

/-- **A log that leaves records out is all that changes with it**: the performance comes to the
    same, and the parts of the stage have received the same. -/
theorem Performance.onHost_filtered {α : Type} (p : Performance α) {h : Host}
    (hall : h.filter = some .debug) (f : LogFilter) :
    p.onHost (h.filtered f) = ((p.onHost h).1, (p.onHost h).2.filtered f) := by
  induction p generalizing h with
  | done value => rfl
  | act a next ih =>
    rw [onHost, onHost, Host.perform_filtered hall, ih ((h.filter_perform a).trans hall)]
  | note r next ih =>
    rw [onHost, onHost, Host.note_filtered hall, ih ((h.filter_note r).trans hall)]
  | ask q next ih =>
    rw [onHost, onHost, Host.answer_filtered hall]
    exact ih _ ((h.filter_answer q).trans hall)

/-! ## Parts of an event list -/

/-- A line of dialogue. -/
def Event.isSpeech : Event → Bool
  | .act (.say _) => true
  | _ => false

/-- A question. -/
def Event.isQuery : Event → Bool
  | .query _ => true
  | _ => false

/-- A diagnostic. -/
def Event.isReport : Event → Bool
  | .act (.report _) => true
  | _ => false

namespace Recording

@[simp] theorem append_nil (r : Recording) : r.append [] = r := by
  simp [append]

/-- A recorder that has received one event and then those of its kind among others has received
    those of its kind among all of them. -/
theorem append_filter_cons (r : Recording) (p : Event → Bool) (x : Event) (xs : List Event) :
    (r.append ([x].filter p)).append (xs.filter p) = r.append ((x :: xs).filter p) := by
  rw [show x :: xs = [x] ++ xs from rfl, List.filter_append]
  simp [append]

end Recording

/-! ## Four recorders -/

namespace Host

/-- A recorder for every concern. -/
def recorders (dialogue actions environment diagnostics : Recording) (filter : LogFilter)
    (log : Array LogRecord) : Host :=
  ⟨.recorder dialogue, .recorder actions, .recorder environment, .recorder diagnostics, filter, log⟩

/-- The recorders after some events, each with those that concern it. -/
def recordersAfter (events : List Event) (dialogue actions environment diagnostics : Recording)
    (filter : LogFilter) (log : Array LogRecord) : Host :=
  recorders (dialogue.append (events.filter Event.isSpeech))
    (actions.append (events.filter Recording.isAction))
    (environment.append (events.filter Event.isQuery))
    (diagnostics.append (events.filter Event.isReport)) filter log

variable (d a e g : Recording) (f : LogFilter) (log : Array LogRecord)

theorem perform_recorders (x : Act) : (recorders d a e g f log).perform x =
    recordersAfter [.act x] d a e g f log := by
  cases x <;> simp [recordersAfter, Event.isSpeech, Recording.isAction, Event.isReport] <;> rfl

theorem answer_recorders (q : Query) : (recorders d a e g f log).answer q =
    (e.answer q, recordersAfter [.query q] d a e g f log) := by
  simp [recordersAfter, Event.isSpeech, Recording.isAction, Event.isReport]
  rfl

theorem recordersAfter_cons (x : Event) (xs : List Event) :
    recordersAfter (x :: xs) d a e g f log =
      recordersAfter xs (d.append ([x].filter Event.isSpeech))
        (a.append ([x].filter Recording.isAction)) (e.append ([x].filter Event.isQuery))
        (g.append ([x].filter Event.isReport)) f log := by
  simp only [recordersAfter, Recording.append_filter_cons]

end Host

/-- Four recorders receive the events of one recording stage, each those that concern it. -/
theorem Performance.onHost_recorders {α : Type} (p : Performance α) (d a e g : Recording)
    (f : LogFilter) (log : Array LogRecord) : ∃ log',
      p.onHost (.recorders d a e g f log) =
        (p.value e.answer, .recordersAfter (p.events e.answer) d a e g f log') := by
  induction p generalizing d a e g log with
  | done x => exact ⟨log, by simp [onHost, value, events, Host.recordersAfter]⟩
  | act x next ih =>
    simp only [onHost, Host.perform_recorders, value, events, Host.recordersAfter_cons]
    -- what a recorder answers does not depend on what it has received
    exact ih _ _ _ _ log
  | note r next ih =>
    rw [onHost, Host.note]
    split
    · exact ih d a e g (log.push r)
    · exact ih d a e g log
  | ask q next ih =>
    simp only [onHost, Host.answer_recorders, value, events, Host.recordersAfter_cons]
    exact ih (e.answer q) _ _ _ _ log

/-! ## A rehearsal -/

/-- What a rehearsal notes of an event: an action that is not taken, or a diagnostic. -/
def Event.announced? : Event → Option LogRecord
  | .act (.blockInput blocked) => some ⟨.info, s!"[dry run] set input blocked: {blocked}"⟩
  | .act (.openPath path) => some ⟨.info, s!"[dry run] open {path}"⟩
  | .act (.report d) => some ⟨.warn, d.message⟩
  | .act (.say _) | .query _ => none

/-- Dialogue and questions are recorded, actions and diagnostics are noted in a log of full
    detail. -/
def Host.rehearsal (dialogue environment : Recording) (log : Array LogRecord) : Host :=
  ⟨.recorder dialogue, .dryRun, .recorder environment, .log, some .debug, log⟩

theorem Host.perform_rehearsal (d e : Recording) (log : Array LogRecord) (x : Act) :
    (rehearsal d e log).perform x = rehearsal (d.append ([Event.act x].filter Event.isSpeech)) e
      (log ++ (Event.act x).announced?.toList.toArray) := by
  cases x with
  | say text => simp [Event.announced?]; rfl
  | blockInput blocked => simp [Event.isSpeech]; rfl
  | openPath path => simp [Event.isSpeech]; rfl
  | report diagnostic => simp [Event.isSpeech]; rfl

namespace Performance

variable {α β : Type}

/-- The records of a rehearsal: those of the performance, with its events announced among them. -/
def rehearsed (answer : Query → Float) : Performance α → List LogRecord
  | done _ => []
  | act x next => (Event.act x).announced?.toList ++ next.rehearsed answer
  | note r next => r :: next.rehearsed answer
  | ask q next => (next (answer q)).rehearsed answer

theorem onHost_rehearsal (p : Performance α) (d e : Recording) (log : Array LogRecord) :
    p.onHost (.rehearsal d e log) =
      (p.value e.answer, .rehearsal (d.append ((p.events e.answer).filter Event.isSpeech))
        (e.append ((p.events e.answer).filter Event.isQuery))
        (log ++ (p.rehearsed e.answer).toArray)) := by
  induction p generalizing d e log with
  | done x => simp [onHost, value, events, rehearsed]
  | act x next ih =>
    have hquery : (Event.act x :: next.events e.answer).filter Event.isQuery =
        (next.events e.answer).filter Event.isQuery :=
      List.filter_cons_of_neg (by simp [Event.isQuery])
    have hlog : ∀ xs ys : List LogRecord, log ++ xs.toArray ++ ys.toArray =
        log ++ (xs ++ ys).toArray := by simp
    rw [onHost, Host.perform_rehearsal, ih, value, events, rehearsed, Recording.append_filter_cons,
      hquery, hlog]
  | note r next ih =>
    have hnote : (Host.rehearsal d e log).note r = .rehearsal d e (log.push r) :=
      Host.note_eq rfl r
    rw [onHost, hnote, ih, value, events, rehearsed]
    simp
  | ask q next ih =>
    have hanswer : (Host.rehearsal d e log).answer q =
        (e.answer q, .rehearsal d (e.append [.query q]) log) := rfl
    rw [onHost, hanswer, ih, Recording.answer_append, value, events, rehearsed,
      List.filter_cons_of_neg (by simp [Event.isSpeech]), List.filter_cons_of_pos rfl]
    simp [Recording.append]

@[simp] theorem rehearsed_bind (answer : Query → Float) (p : Performance α)
    (f : α → Performance β) : (p >>= f).rehearsed answer =
      p.rehearsed answer ++ (f (p.value answer)).rehearsed answer := by
  rw [bind_eq]
  induction p with
  | done x => rfl
  | act a next ih => simpa [Performance.bind, value, rehearsed] using ih
  | note r next ih => simpa [Performance.bind, value, rehearsed] using ih
  | ask q next ih => simpa [Performance.bind, value, rehearsed] using ih (answer q)

end Performance

/-! ## Quiet performances -/

/-- The record is there to be seen without asking for detail. -/
def LogRecord.isNotice (r : LogRecord) : Bool := r.level == .info || r.level == .warn

namespace Performance

variable {α β : Type}

/-- The performance notes down only detail by itself, so that the notices of its rehearsal are
    those of its events. -/
def Quiet (p : Performance α) : Prop :=
  ∀ answer, (p.rehearsed answer).filter LogRecord.isNotice =
    (p.events answer).filterMap Event.announced?

namespace Quiet

theorem pure (x : α) : (Pure.pure x : Performance α).Quiet := fun _ => rfl

theorem bind {p : Performance α} {f : α → Performance β} (hp : p.Quiet) (hf : ∀ x, (f x).Quiet) :
    (p >>= f).Quiet := by
  intro answer
  rw [rehearsed_bind, events_bind, List.filter_append, List.filterMap_append, hp, hf]

theorem perform (a : Act) : (Performance.perform a).Quiet := by
  intro answer
  cases a <;> rfl

theorem report (d : Diagnostic) : (Performance.report d).Quiet := perform _

theorem query (q : Query) : (Performance.query q).Quiet := fun _ => rfl

theorem debug (message : String) : (Performance.debug message).Quiet := fun _ => rfl

end Quiet

end Performance

/-! ## Programs are quiet -/

section Programs

open Performance (Quiet)

theorem Value.quiet_coerceNumber (v : Value) (line : Nat) : (v.coerceNumber line).Quiet := by
  rw [coerceNumber]
  cases v.asNumber with
  | ok x => exact .pure _
  | error e => exact (Quiet.report _).bind fun _ => .pure _

theorem Value.quiet_coerceBool (v : Value) (line : Nat) : (v.coerceBool line).Quiet := by
  rw [coerceBool]
  cases v.asBool with
  | ok b => exact .pure _
  | error e => exact (Quiet.report _).bind fun _ => .pure _

theorem BuiltIn.quiet_apply (f : BuiltIn) (text : Option String) (line : Nat) :
    (f.apply text line).Quiet :=
  (Quiet.debug _).bind fun _ => (Quiet.query _).bind fun _ => .pure _

theorem Expression.quiet_evaluateWithin (e : Expression) (bound position : Nat) :
    (e.evaluateWithin bound position).Quiet := by
  induction bound generalizing position with
  | zero => exact .pure _
  | succ bound ih =>
    rw [evaluateWithin]
    split
    · exact .pure _
    · exact .pure _
    · exact ih _
    · exact (ih _).bind fun l => (ih _).bind fun r => (l.quiet_coerceNumber _).bind fun _ =>
        (r.quiet_coerceNumber _).bind fun _ => .pure _
    · exact (ih _).bind fun l => (ih _).bind fun r => (l.quiet_coerceBool _).bind fun _ =>
        (r.quiet_coerceBool _).bind fun _ => .pure _
    · split
      · exact (Quiet.report _).bind fun _ => .pure _
      · next f _ =>
        split
        · exact f.quiet_apply _ _
        · exact (ih _).bind fun _ => f.quiet_apply _ _

namespace Statement

theorem quiet_performDialogue (text : String) (line : Nat) : (performDialogue text line).Quiet := by
  rw [performDialogue]
  split
  · exact .pure _
  · exact (Quiet.debug _).bind fun _ => (Quiet.perform _).bind fun _ => .pure _

theorem quiet_noteUnaccepted (known : Command) (line : Nat) (keys : List String) :
    (noteUnaccepted known line keys).Quiet := by
  induction keys with
  | nil => exact .pure _
  | cons key keys ih =>
    rw [noteUnaccepted]
    split
    · exact (Quiet.debug _).bind fun _ => ih
    · exact ih

theorem quiet_performKnown (known : Command) (call : CommandCall) (line : Nat) :
    (performKnown known call line).Quiet := by
  rw [performKnown]
  split
  · exact .pure _
  · refine (quiet_noteUnaccepted known line _).bind fun _ => (Quiet.debug _).bind fun _ => ?_
    split
    · exact .pure _
    · exact (Quiet.perform _).bind fun _ => .pure _

theorem quiet_performCommand (name : String) (arguments : Arguments) (line : Nat) :
    (performCommand name arguments line).Quiet := by
  rw [performCommand]
  split
  · exact (Quiet.report _).bind fun _ => .pure _
  · exact quiet_performKnown _ _ _

theorem quiet_performGuard (condition : Expression) (line : Nat) :
    (performGuard condition line).Quiet :=
  (condition.quiet_evaluateWithin _ _).bind fun v => (v.quiet_coerceBool _).bind fun _ =>
    (Quiet.debug _).bind fun _ => .pure _

theorem quiet_performSkip (jump : Option String) (line : Nat) : (performSkip jump line).Quiet := by
  cases jump with
  | none => exact .pure _
  | some label => exact (Quiet.report _).bind fun _ => .pure _

theorem quiet_perform (st : Statement) : st.perform.Quiet := by
  induction st with
  | dialogue text line => exact quiet_performDialogue text line
  | command name arguments line => exact quiet_performCommand name arguments line
  | conditional condition body jump line ih =>
    refine (quiet_performGuard condition line).bind fun met => ?_
    split
    · exact ih
    · exact quiet_performSkip jump line

end Statement

theorem Program.quiet_performFrom (tally : Tally) (statements : List Statement) :
    (performFrom tally statements).Quiet := by
  induction statements generalizing tally with
  | nil => exact .pure _
  | cons st rest ih =>
    refine st.quiet_perform.bind fun result => ?_
    split
    · exact (Quiet.report _).bind fun _ => ih _
    · exact ih _

end Programs

/-! ## Programs on composed stages -/

/-- How a program runs on two composed stages when on one recording stage it comes to the tally and
    records the events. -/
structure Program.Hosted (p : Program) (t : Tally) (es : List Event) (d a e g : Recording) :
    Prop where
  /-- Four recorders receive the events that concern them, whatever the log keeps. -/
  recorders : ∃ log : Array LogRecord, ∀ f : LogFilter,
    p.perform.onHost (.recorders d a e g f #[]) =
      (t, .recordersAfter es d a e g f (log.filter f.keeps))
  /-- A rehearsal records dialogue and questions, and whatever its log keeps is taken from one list:
      its notices are the events that it announces, and then the tally. -/
  rehearsal : ∃ log : Array LogRecord,
    log.toList.filter LogRecord.isNotice = es.filterMap Event.announced? ++ [⟨.info, t.message⟩] ∧
    ∀ f : LogFilter, p.perform.onHost ((Host.rehearsal d e #[]).filtered f) =
      (t, (Host.rehearsal (d.append (es.filter Event.isSpeech)) (e.append (es.filter Event.isQuery))
        log).filtered f)

/-- The records of a rehearsal end in the tally, and the notices before it are the announcements. -/
theorem Program.filter_rehearsed (p : Program) (answer : Query → Float) :
    (p.perform.rehearsed answer).filter LogRecord.isNotice =
      (p.perform.events answer).filterMap Event.announced? ++
        [⟨.info, (p.perform.value answer).message⟩] := by
  rw [perform, Performance.rehearsed_bind, Performance.events_bind, List.filter_append,
    quiet_performFrom]
  simp [Performance.rehearsed_bind]
  rfl

/-- **A composed stage behaves as a recording one** with the same table and clock: a program comes
    to the same tally, and what reaches the parts of the stage is what the other one records. -/
theorem Program.hosted (p : Program) (r d a g : Recording) (old : Array Event) :
    ∃ t es, p.perform.onRecording r = (t, r.append es) ∧
      p.Hosted t es d a { r with events := old } g := by
  let e : Recording := { r with events := old }
  have hanswer : e.answer = r.answer := by
    funext q
    cases q <;> rfl
  refine ⟨_, _, Performance.onRecording_eq _ r, ?_, ?_⟩
  · obtain ⟨log, hlog⟩ := p.perform.onHost_recorders d a e g (some .debug) #[]
    refine ⟨log, fun f => ?_⟩
    have h := p.perform.onHost_filtered (h := .recorders d a e g (some .debug) #[]) rfl f
    rw [hlog, hanswer] at h
    exact h
  · refine ⟨(p.perform.rehearsed r.answer).toArray, p.filter_rehearsed r.answer, fun f => ?_⟩
    rw [Performance.onHost_filtered _ rfl, Performance.onHost_rehearsal, hanswer]
    simp

end StageScript
