import StageScript.Proofs.Failures

set_option autoImplicit false

/-! # Arguments that a command accepts

Of the values that are put in for a command those count that are under a key which the command
accepts, and of these the last one under each key. All others leave no trace but in the notes: they
change neither how the command comes out nor what it does, and leave every stage as it is but for
its notes (`Stage.Overlooks`). Main statement: `Command.heedsLast`. -/

namespace StageScript

/-! ## The last value under a key -/

namespace Arguments

/-- The last of the values that are put in under a key. -/
def lastWritten? (key : String) (pairs : List (String × Literal)) : Option Literal :=
  (pairs.reverse.find? fun pair => pair.1 == key).map (·.2)

/-- The text of the last value that is put in under a key. -/
def lastText? (key : String) (pairs : List (String × Literal)) : Option String :=
  (lastWritten? key pairs).map Literal.argumentText

variable (key : String) (pairs later : List (String × Literal))

theorem lastWritten?_append :
    lastWritten? key (pairs ++ later) = (lastWritten? key later).or (lastWritten? key pairs) := by
  rw [lastWritten?, List.reverse_append, List.find?_append, Option.map_or, lastWritten?,
    lastWritten?]

theorem lastWritten?_singleton (pair : String × Literal) :
    lastWritten? key [pair] = if pair.1 = key then some pair.2 else none := by
  by_cases h : pair.1 = key <;> simp [lastWritten?, h]

theorem lastWritten?_eq_none_iff : lastWritten? key pairs = none ↔ key ∉ pairs.map (·.1) := by
  rw [lastWritten?, Option.map_eq_none_iff, List.find?_eq_none, List.mem_map, not_exists]
  refine forall_congr' fun pair => ?_
  rw [List.mem_reverse, beq_iff_eq, not_and]

/-- Only the values under a key count for it. -/
theorem lastWritten?_filter :
    lastWritten? key (pairs.filter fun pair => pair.1 == key) = lastWritten? key pairs := by
  simp only [lastWritten?, ← List.filter_reverse, List.find?_filter, and_self, Bool.decide_eq_true]

/-- What is under a key after all values are put in is the last one of them. -/
theorem get?_ofList : (ofList pairs).get? key = lastWritten? key pairs := by
  induction pairs using List.reverseRecOn with
  | nil => rfl
  | append_singleton pairs pair ih =>
    have hinsert : ofList (pairs ++ [pair]) = (ofList pairs).insert pair.1 pair.2 := by
      simp [ofList]
    rw [hinsert, get?_insert, ih, lastWritten?_append, lastWritten?_singleton]
    split <;> rfl

/-- A value counts under its own key only, and there only if no other one comes behind it. -/
theorem lastText?_insert {other : String} (value : Literal) (earlier : List (String × Literal))
    (h : key = other → other ∈ later.map (·.1)) :
    lastText? other (earlier ++ (key, value) :: later) = lastText? other (earlier ++ later) := by
  rw [lastText?, lastText?, lastWritten?_append, lastWritten?_append, ← List.singleton_append,
    lastWritten?_append, lastWritten?_singleton]
  by_cases hkey : key = other
  · obtain ⟨last, hlater⟩ : ∃ last, lastWritten? other later = some last := by
      rw [← Option.ne_none_iff_exists', Ne, lastWritten?_eq_none_iff]
      exact not_not.2 (h hkey)
    rw [hlater]
    rfl
  · rw [if_neg hkey, Option.or_none]

end Arguments

/-! ## Commands -/

namespace Command

/-- The command of the name accepts the key. A name that no command has accepts none. -/
def Heeds (name key : String) : Prop :=
  ∃ known, lookup? name = some known ∧ known.accepts key = true

section Congruence

variable {known : Command} {call call' : CommandCall}

theorem require_congr {key : String} (hkey : call.get? key = call'.get? key)
    (hname : call.name = call'.name) : call.require key = call'.require key := by
  rw [CommandCall.require, CommandCall.require, hname, hkey]

/-- The check looks at keys that the command accepts. -/
theorem check_congr (h : ∀ key, known.accepts key = true → call.get? key = call'.get? key)
    (hname : call.name = call'.name) : known.check call = known.check call' := by
  have hkeys : ∀ keys ⊆ known.required,
      (keys.forM fun key => (call.require key).map fun _ => ()) =
        keys.forM fun key => (call'.require key).map fun _ => () := by
    intro keys hkeys
    induction keys with
    | nil => rfl
    | cons key keys ih =>
      obtain ⟨hkey, hkeys⟩ := List.cons_subset.1 hkeys
      have haccepts : known.accepts key = true := by simp [accepts, hkey]
      simp only [List.forM_eq_forM, List.forM_cons] at ih ⊢
      rw [require_congr (h key haccepts) hname, ih hkeys]
  exact hkeys known.required (List.Subset.refl _)

/-- What a command of the table does looks at keys that the command accepts. -/
theorem action_congr (hknown : known ∈ table)
    (h : ∀ key, known.accepts key = true → call.get? key = call'.get? key)
    (hname : call.name = call'.name) : known.action call = known.action call' := by
  simp only [table, List.mem_cons, List.not_mem_nil, or_false] at hknown
  rcases hknown with rfl | rfl | rfl
  · rfl
  · rfl
  · have haccepts : openApplication.accepts pathKey = true := by decide
    simp only [openApplication, require_congr (h pathKey haccepts) hname]

/-- One command opens paths, and it opens the one that it is given. -/
theorem action_eq_openPath_iff (hknown : known ∈ table) {path : String} :
    known.action call = .ok (.openPath path) ↔
      known.name = openApplication.name ∧ call.get? pathKey = some path := by
  simp only [table, List.mem_cons, List.not_mem_nil, or_false] at hknown
  rcases hknown with rfl | rfl | rfl
  · exact iff_of_false (fun h => by cases h) fun h => absurd h.1 (by decide)
  · exact iff_of_false (fun h => by cases h) fun h => absurd h.1 (by decide)
  · rw [and_iff_right rfl]
    simp only [openApplication, CommandCall.require]
    cases call.get? pathKey with
    | none => exact iff_of_false (fun h => by cases h) fun h => by cases h
    | some text => simp [Except.map]

end Congruence

/-- No command accepts what is written without a key. -/
theorem not_heeds_defaultKey (name : String) : ¬Heeds name Arguments.defaultKey := by
  rintro ⟨known, hlookup, haccepts⟩
  have hnone : ∀ known ∈ table, known.accepts Arguments.defaultKey = false := by decide
  rw [hnone known (List.mem_of_find?_eq_some hlookup)] at haccepts
  cases haccepts

end Command

/-! ## Stages apart from their notes -/

section Views

variable {σ τ : Type}

/-- The view of a stage overlooks its notes: they are nothing to it, and of an act it sees the same
    wherever it saw the same before. -/
structure Stage.Overlooks (stage : Stage σ) (view : σ → τ) : Prop where
  note : ∀ r st, view (stage.note r st) = view st
  act : ∀ a st st', view st = view st' → view (stage.act a st) = view (stage.act a st')

/-- A recording stage hears no notes. -/
theorem Stage.overlooks_recording : Stage.recording.Overlooks id where
  note _ _ := rfl
  act a _ _ h := congrArg (Recording.record · (.act a)) h

/-- A composed stage without the records that it has noted. -/
def Host.withoutRecords (h : Host) : Host := { h with records := #[] }

theorem Host.withoutRecords_note (h : Host) (r : LogRecord) :
    (h.note r).withoutRecords = h.withoutRecords := by
  rw [note]
  split <;> rfl

/-- What an act does to a composed stage does not depend on its records. -/
theorem Host.withoutRecords_perform (h : Host) (a : Act) :
    (h.withoutRecords.perform a).withoutRecords = (h.perform a).withoutRecords := by
  cases a with
  | say text =>
    rw [perform, perform, say, say, show h.withoutRecords.dialogue = h.dialogue from rfl]
    cases h.dialogue <;> rfl
  | blockInput blocked =>
    rw [perform, perform, blockInput, blockInput,
      show h.withoutRecords.actions = h.actions from rfl]
    cases h.actions with
    | recorder r => rfl
    | dryRun | machine => exact (withoutRecords_note _ _).trans (withoutRecords_note h _).symm
  | openPath path =>
    rw [perform, perform, openPath, openPath, show h.withoutRecords.actions = h.actions from rfl]
    cases h.actions with
    | recorder r => rfl
    | dryRun | machine => exact (withoutRecords_note _ _).trans (withoutRecords_note h _).symm
  | report d =>
    rw [perform, perform, report, report,
      show h.withoutRecords.diagnostics = h.diagnostics from rfl]
    cases h.diagnostics with
    | recorder r => rfl
    | log => exact (withoutRecords_note _ _).trans (withoutRecords_note h _).symm

/-- A composed stage keeps its notes apart from all else. -/
theorem Stage.overlooks_host : Stage.host.Overlooks Host.withoutRecords where
  note r h := h.withoutRecords_note r
  act a h h' heq := by
    show (h.perform a).withoutRecords = (h'.perform a).withoutRecords
    rw [← h.withoutRecords_perform, heq, h'.withoutRecords_perform]

/-- On the stage both statements come out the same and show the same, and leave it the same but for
    its notes. -/
structure Statement.SameOn (stage : Stage σ) (st : σ) (s s' : Statement) : Prop where
  result : (s.perform.on stage st).1 = (s'.perform.on stage st).1
  seen : s.perform.seenOn stage st = s'.perform.seenOn stage st
  left : ∀ {τ : Type} {view : σ → τ}, stage.Overlooks view →
    view (s.perform.on stage st).2 = view (s'.perform.on stage st).2

namespace Statement

theorem SameOn.onRecording {r : Recording} {s s' : Statement} (h : SameOn .recording r s s') :
    s.perform.onRecording r = s'.perform.onRecording r := by
  rw [← Performance.on_recording, ← Performance.on_recording]
  exact Prod.ext h.result (h.left Stage.overlooks_recording)

theorem SameOn.onHost {h : Host} {s s' : Statement} (hsame : SameOn .host h s s') :
    (s.perform.onHost h).1 = (s'.perform.onHost h).1 ∧
      (s.perform.onHost h).2.withoutRecords = (s'.perform.onHost h).2.withoutRecords := by
  rw [← Performance.on_host, ← Performance.on_host]
  exact ⟨hsame.result, hsame.left Stage.overlooks_host⟩

variable {stage : Stage σ} {view : σ → τ}

theorem view_noteUnaccepted (hview : stage.Overlooks view) (known : Command) (line : Nat)
    (keys : List String) (st : σ) :
    view ((noteUnaccepted known line keys).on stage st).2 = view st := by
  induction keys generalizing st with
  | nil => rfl
  | cons key keys ih =>
    rw [noteUnaccepted]
    split
    · rw [Performance.on_bind, ih]
      exact hview.note _ st
    · exact ih st

/-- Calls that are checked alike and act alike are alike on every stage, whatever their other
    arguments. -/
theorem performKnown_congr {known : Command} {call call' : CommandCall}
    (hcheck : known.check call = known.check call')
    (haction : known.action call = known.action call') (line : Nat) (stage : Stage σ) (st : σ) :
    ((performKnown known call line).on stage st).1 =
        ((performKnown known call' line).on stage st).1 ∧
      (performKnown known call line).seenOn stage st =
        (performKnown known call' line).seenOn stage st ∧
      ∀ {τ : Type} {view : σ → τ}, stage.Overlooks view →
        view ((performKnown known call line).on stage st).2 =
          view ((performKnown known call' line).on stage st).2 := by
  rw [performKnown, performKnown, hcheck, haction]
  cases known.check call' with
  | error kind => exact ⟨rfl, rfl, fun _ => rfl⟩
  | ok _ =>
    simp only [Performance.on_bind, Performance.seenOn_bind, seenOn_noteUnaccepted]
    -- the notes behind the check are all that differs
    have hnotes : ∀ {τ : Type} {view : σ → τ}, stage.Overlooks view →
        ∀ message : String, ∀ keys : List String,
        view ((Performance.debug message).on stage
          ((noteUnaccepted known line keys).on stage st).2).2 = view st := by
      intro τ view hview message keys
      exact (hview.note _ _).trans (view_noteUnaccepted hview known line keys st)
    cases known.action call' with
    | error kind =>
      exact ⟨rfl, rfl, fun hview => (hnotes hview _ _).trans (hnotes hview _ _).symm⟩
    | ok act =>
      exact ⟨rfl, rfl, fun hview =>
        hview.act act _ _ ((hnotes hview _ _).trans (hnotes hview _ _).symm)⟩

end Statement

end Views

/-! ## Commands with values put in one by one -/

/-- A command on a line, with values put in under their keys one by one. -/
def Statement.commandOf (name : String) (line : Nat) (pairs : List (String × Literal)) :
    Statement :=
  command name (.ofList pairs) line

theorem CommandCall.get?_ofList (name : String) (pairs : List (String × Literal)) (key : String) :
    (ofArguments name (.ofList pairs)).get? key = Arguments.lastText? key pairs := by
  rw [get?_ofArguments, Arguments.get?_ofList, Arguments.lastText?]

section Accepted

open Arguments (lastText?)

variable {σ : Type} {stage : Stage σ} {name : String} {pairs others : List (String × Literal)}

namespace Statement

theorem perform_commandOf_unknown (hname : Command.lookup? name = none) (line : Nat) :
    (commandOf name line pairs).perform =
      (do .report (.unknownCommand name line); return .ok .ignored) := by
  rw [commandOf, perform, performCommand, hname]

theorem perform_commandOf_known {known : Command} (hname : Command.lookup? name = some known)
    (line : Nat) : (commandOf name line pairs).perform =
      performKnown known (.ofArguments name (.ofList pairs)) line := by
  rw [commandOf, perform, performCommand, hname]

/-- The last texts under the keys that a command accepts decide what it does. -/
theorem sameOn_of_heeds
    (h : ∀ key, Command.Heeds name key → lastText? key pairs = lastText? key others) (line : Nat)
    (st : σ) : SameOn stage st (commandOf name line pairs) (commandOf name line others) := by
  cases hname : Command.lookup? name with
  | none =>
    have hsame : (commandOf name line pairs).perform = (commandOf name line others).perform :=
      (perform_commandOf_unknown hname line).trans (perform_commandOf_unknown hname line).symm
    exact ⟨by rw [hsame], by rw [hsame], fun _ => by rw [hsame]⟩
  | some known =>
    have hget : ∀ key, known.accepts key = true →
        (CommandCall.ofArguments name (.ofList pairs)).get? key =
          (CommandCall.ofArguments name (.ofList others)).get? key := by
      intro key hkey
      rw [CommandCall.get?_ofList, CommandCall.get?_ofList, h key ⟨known, hname, hkey⟩]
    obtain ⟨hresult, hseen, hleft⟩ := performKnown_congr (Command.check_congr hget rfl)
      (Command.action_congr (List.mem_of_find?_eq_some hname) hget rfl) line stage st
    rw [← perform_commandOf_known hname, ← perform_commandOf_known hname] at hresult hseen hleft
    exact ⟨hresult, hseen, hleft⟩

/-- A path that is opened is the last one that is put in. -/
theorem openPath_seen_iff (stage : Stage σ) (line : Nat) (st : σ) {path : String} :
    Event.act (.openPath path) ∈ (commandOf name line pairs).perform.seenOn stage st ↔
      name = Command.openApplication.name ∧ lastText? Command.pathKey pairs = some path := by
  rw [← CommandCall.get?_ofList name]
  cases hname : Command.lookup? name with
  | none =>
    rw [perform_commandOf_unknown hname]
    refine iff_of_false (by simp) ?_
    rintro ⟨rfl, -⟩
    exact absurd hname (by decide +kernel)
  | some known =>
    have hknown : known ∈ Command.table := List.mem_of_find?_eq_some hname
    rw [perform_commandOf_known hname]
    obtain rfl : known.name = name := by simpa using List.find?_some hname
    rw [← Command.action_eq_openPath_iff hknown]
    rcases Command.check_cases hknown (.ofArguments known.name (.ofList pairs)) with
      ⟨hcheck, -, act, hact⟩ | ⟨hcheck, -, hpath⟩
    · have hseen : (performKnown known _ line).seenOn stage st = [.act act] :=
        (performKnown_of_check line hcheck hact st).2
      rw [hseen, hact]
      simp [eq_comm]
    · rw [performKnown, hcheck, Command.action_eq_openPath_iff hknown, hpath]
      simp

end Statement

/-! ## What commands heed -/

/-- How the commands of a name depend on the values that are put in for them. -/
structure Command.HeedsLast (name : String) (line : Nat) (stage : Stage σ) (st : σ) : Prop where
  /-- The last text under each key that the command accepts decides. -/
  decided : ∀ pairs others : List (String × Literal),
    (∀ key, Heeds name key → lastText? key pairs = lastText? key others) →
    (Statement.commandOf name line pairs).SameOn stage st (.commandOf name line others)
  /-- A value under any other key can be left out. -/
  extra : ∀ (earlier later : List (String × Literal)) (key : String) (value : Literal),
    ¬Heeds name key →
    (Statement.commandOf name line (earlier ++ (key, value) :: later)).SameOn stage st
      (.commandOf name line (earlier ++ later))
  /-- A value without a key can be left out. -/
  keyless : ∀ (earlier later : List (String × Literal)) (value : Literal),
    (Statement.commandOf name line
      (earlier ++ (Arguments.defaultKey, value) :: later)).SameOn stage st
      (.commandOf name line (earlier ++ later))
  /-- A value that is written over can be left out. -/
  overwritten : ∀ (earlier later : List (String × Literal)) (key : String) (value : Literal),
    key ∈ later.map (·.1) →
    (Statement.commandOf name line (earlier ++ (key, value) :: later)).SameOn stage st
      (.commandOf name line (earlier ++ later))
  /-- Values can be put in in any order that keeps the order of those under the same key. -/
  reordered : ∀ pairs others : List (String × Literal),
    (∀ key, pairs.filter (·.1 == key) = others.filter (·.1 == key)) →
    (Statement.commandOf name line pairs).SameOn stage st (.commandOf name line others)
  /-- A path is opened if it is the last one of the command that opens paths. -/
  opened : ∀ (pairs : List (String × Literal)) (path : String),
    Event.act (.openPath path) ∈ (Statement.commandOf name line pairs).perform.seenOn stage st ↔
      name = "アプリケーションを開く" ∧ lastText? "パス" pairs = some path
  /-- For a name that no command has nothing matters. -/
  unknown : lookup? name = none → ∀ pairs others : List (String × Literal),
    (Statement.commandOf name line pairs).SameOn stage st (.commandOf name line others)

/-- **Only accepted arguments matter to a command, and of these the last ones**, on every stage and
    in whatever state. -/
theorem Command.heedsLast (name : String) (line : Nat) (stage : Stage σ) (st : σ) :
    HeedsLast name line stage st := by
  have hdecided : ∀ pairs others : List (String × Literal),
      (∀ key, Heeds name key → lastText? key pairs = lastText? key others) →
      (Statement.commandOf name line pairs).SameOn stage st (.commandOf name line others) :=
    fun _ _ h => Statement.sameOn_of_heeds h line st
  have hextra : ∀ (earlier later : List (String × Literal)) (key : String) (value : Literal),
      ¬Heeds name key →
      (Statement.commandOf name line (earlier ++ (key, value) :: later)).SameOn stage st
        (.commandOf name line (earlier ++ later)) := by
    intro earlier later key value hkey
    refine hdecided _ _ fun other hother => Arguments.lastText?_insert _ _ _ _ ?_
    rintro rfl
    exact absurd hother hkey
  refine ⟨hdecided, hextra, fun earlier later value => ?keyless,
    fun earlier later key value hmem => ?overwritten, fun pairs others h => ?reordered,
    fun pairs path => Statement.openPath_seen_iff stage line st,
    fun hname pairs others => ?unknown⟩
  case keyless => exact hextra earlier later _ value (not_heeds_defaultKey name)
  case overwritten =>
    exact hdecided _ _ fun other _ => Arguments.lastText?_insert _ _ _ _ fun hkey => hkey ▸ hmem
  case reordered =>
    refine hdecided _ _ fun key _ => ?_
    rw [lastText?, lastText?, ← Arguments.lastWritten?_filter, h key, Arguments.lastWritten?_filter]
  case unknown =>
    refine hdecided _ _ fun key hkey => ?_
    obtain ⟨known, hknown, -⟩ := hkey
    rw [hname] at hknown
    cases hknown

/-- A path that is written over, one between values under other keys and without a key, and a path
    that two literals spell. -/
theorem Command.heedsLast_openApplication :
    let pairs := [("パス", Literal.word "古い"), ("default", .number "1"), ("パス", .string "「新」"),
      ("色", .word "赤")]
    let others := [("パス", Literal.word "新")]
    HeedsLast "アプリケーションを開く" 3 .recording .empty ∧
      (∀ key, Heeds "アプリケーションを開く" key → lastText? key pairs = lastText? key others) ∧
      (Statement.commandOf "アプリケーションを開く" 3 pairs).perform.onRecording .empty =
        (Statement.commandOf "アプリケーションを開く" 3 others).perform.onRecording .empty ∧
      (Statement.commandOf "アプリケーションを開く" 3 pairs).perform.seenOn .recording .empty =
        [.act (.openPath "新")] := by
  intro pairs others
  have hlaw := heedsLast "アプリケーションを開く" 3 .recording .empty
  have hlast : ∀ key, Heeds "アプリケーションを開く" key →
      lastText? key pairs = lastText? key others := by
    rintro key ⟨known, hlookup, haccepts⟩
    obtain rfl : openApplication = known := by
      have : lookup? "アプリケーションを開く" = some openApplication := rfl
      exact Option.some.inj (this.symm.trans hlookup)
    obtain rfl : key = "パス" := by simpa [accepts, openApplication, pathKey] using haccepts
    decide
  exact ⟨hlaw, hlast, (hlaw.decided _ _ hlast).onRecording, by decide +kernel⟩

end Accepted

end StageScript
