import StageScript.Proofs.Unfolding

set_option autoImplicit false

/-! # What an evaluation asks

Nothing is skipped in an evaluation: whatever the answers are, it takes the same steps, and a step
is a coercion that fails or a call (`Tree.exists_steps`). A value has the same kind under all
answers and, if it is a text, the same text, since texts come from literals alone; so the only thing
in which two evaluations of a tree can differ is the path of a directory that was itself computed
from an answer. Main statement: `Expression.consults`. -/

namespace StageScript

/-! ## Consulted calls -/

/-- A call of a tree. -/
structure Call where
  name : String
  arguments : TreeArguments
  line : Nat

namespace Call

/-- The argument that is evaluated: the one that a known function looks at. -/
def argument? (c : Call) : Option Tree :=
  (BuiltIn.lookup? c.name).bind fun f => f.choose? c.arguments

theorem sizeOf_of_argument? {c : Call} {t : Tree} (h : c.argument? = some t) :
    sizeOf t < sizeOf c.arguments := by
  obtain ⟨f, -, hchoose⟩ := Option.bind_eq_some_iff.1 h
  exact BuiltIn.sizeOf_of_choose? hchoose

/-- The text of that argument. -/
def text? (answer : Query → Float) (c : Call) : Option String :=
  c.argument?.map fun t => (t.evaluate.value answer).display

/-- The question that the call asks, if its function is known. -/
def query? (answer : Query → Float) (c : Call) : Option Query :=
  (BuiltIn.lookup? c.name).map fun f => f.query (c.text? answer)

/-- What is recorded for the call itself. -/
def event (answer : Query → Float) (c : Call) : Event :=
  match c.query? answer with
  | some q => .query q
  | none => .act (.report (.unknownFunction c.name c.line))

end Call

/-- The calls in consulted positions. These are the root, the operands of what stands in one, and
    the argument that a known function looks at. Operands and arguments come before the node that
    uses them. -/
def Tree.calls : Tree → List Call
  | .atom _ _ => []
  | .group inner => inner.calls
  | .comparison _ lhs rhs => lhs.calls ++ rhs.calls
  | .connective _ lhs rhs => lhs.calls ++ rhs.calls
  | .call name arguments line =>
    match _ : (⟨name, arguments, line⟩ : Call).argument? with
    | none => [⟨name, arguments, line⟩]
    | some argument => argument.calls ++ [⟨name, arguments, line⟩]
termination_by t => sizeOf t
decreasing_by
  all_goals
    simp only [Tree.group.sizeOf_spec, Tree.comparison.sizeOf_spec, Tree.connective.sizeOf_spec,
      Tree.call.sizeOf_spec]
  on_goal 6 => have : sizeOf argument < sizeOf arguments := Call.sizeOf_of_argument? ‹_›
  all_goals omega

theorem Tree.calls_join (o : Operator) (lhs rhs : Tree) :
    (o.join lhs rhs).calls = lhs.calls ++ rhs.calls := by
  cases o <;> rw [Operator.join, calls]

section Calls

variable {name : String} {arguments : TreeArguments} {line : Nat}

theorem Tree.calls_of_none (h : (⟨name, arguments, line⟩ : Call).argument? = none) :
    (call name arguments line).calls = [⟨name, arguments, line⟩] := by
  rw [calls]
  split
  · rfl
  · next h' => rw [h] at h'; cases h'

theorem Tree.calls_of_some {t : Tree} (h : (⟨name, arguments, line⟩ : Call).argument? = some t) :
    (call name arguments line).calls = t.calls ++ [⟨name, arguments, line⟩] := by
  rw [calls]
  split
  · next h' => rw [h] at h'; cases h'
  · next h' =>
    rw [h] at h'
    obtain rfl := Option.some.inj h'
    rfl

end Calls

/-! ## Values under different answers -/

/-- The values are of one kind, and equal if they are texts. -/
inductive Value.Alike : Value → Value → Prop where
  | number (x y : Float) : Alike (.number x) (.number y)
  | text (s : String) : Alike (.text s) (.text s)
  | truth (b c : Bool) : Alike (.truth b) (.truth c)

namespace Value.Alike

theorem refl : ∀ v : Value, v.Alike v
  | .number x => .number x x
  | .text s => .text s
  | .truth b => .truth b b

variable {v w : Value}

/-- Only a text can fail to be a number. -/
theorem numberError?_eq (h : v.Alike w) : v.numberError? = w.numberError? := by
  cases h <;> rfl

theorem truthError?_eq (h : v.Alike w) : v.truthError? = w.truthError? := by
  cases h <;> rfl

end Value.Alike

/-! ## Applications -/

section Applications

variable (answer : Query → Float)

theorem Operator.errors_eq (o : Operator) {lhs rhs lhs' rhs' : Value} (hl : lhs.Alike lhs')
    (hr : rhs.Alike rhs') : o.errors lhs rhs = o.errors lhs' rhs' := by
  cases o with
  | comparison c => rw [errors, errors, hl.numberError?_eq, hr.numberError?_eq]
  | connective c => rw [errors, errors, hl.truthError?_eq, hr.truthError?_eq]

/-- An operator gives a truth value. -/
theorem Operator.alike_apply (o : Operator) (lhs rhs lhs' rhs' : Value) (line : Nat)
    (other : Query → Float) :
    ((o.apply lhs rhs line).value answer).Alike ((o.apply lhs' rhs' line).value other) := by
  cases o <;> simpa [apply, Comparison.apply, Connective.apply] using .truth _ _

end Applications

/-! ## Steps -/

/-- What an evaluation does beside finding values. -/
inductive Step where
  /-- A value is not what it is taken for. -/
  | coercion (error : CoercionError) (line : Nat)
  | call (c : Call)

namespace Step

/-- What is recorded for a step. -/
def event (answer : Query → Float) : Step → Event
  | coercion error line => error.event line
  | call c => c.event answer

/-- The call of a step that is one. -/
def call? : Step → Option Call
  | coercion _ _ => none
  | call c => some c

end Step

/-- The question of an event that is one. -/
def Event.query? : Event → Option Query
  | .query q => some q
  | .act _ => none

/-- The questions of some steps are those of their calls. -/
theorem Step.filterMap_query? (answer : Query → Float) (steps : List Step) :
    (steps.map (Step.event answer)).filterMap Event.query? =
      (steps.filterMap Step.call?).filterMap (Call.query? answer) := by
  rw [List.filterMap_map, List.filterMap_filterMap]
  refine List.filterMap_congr fun x _ => ?_
  cases x with
  | coercion error line => rfl
  | call c =>
    simp only [Function.comp_apply, Step.event, Call.event, Step.call?, Option.bind_some]
    cases c.query? answer <;> rfl

theorem Call.event_of_unknown {c : Call} (h : BuiltIn.lookup? c.name = none)
    (answer : Query → Float) :
    c.event answer = .act (.report (.unknownFunction c.name c.line)) := by
  rw [event, query?, h]
  rfl

theorem Call.event_of_known {c : Call} {f : BuiltIn} (h : BuiltIn.lookup? c.name = some f)
    (answer : Query → Float) : c.event answer = .query (f.query (c.text? answer)) := by
  rw [event, query?, h]
  rfl

namespace Tree

/-- The evaluation of the tree takes the steps under all answers, and its value is of one kind. -/
structure TakesSteps (t : Tree) (steps : List Step) : Prop where
  calls : steps.filterMap Step.call? = t.calls
  events : ∀ answer, t.evaluate.events answer = steps.map (Step.event answer)
  value : ∀ answer other, (t.evaluate.value answer).Alike (t.evaluate.value other)

namespace TakesSteps

theorem atom (literal : Literal) (line : Nat) : (Tree.atom literal line).TakesSteps [] where
  calls := by
    rw [Tree.calls]
    rfl
  events answer := by
    rw [evaluate]
    rfl
  value answer other := by
    rw [evaluate]
    exact .refl _

theorem group {inner : Tree} {steps : List Step} (h : inner.TakesSteps steps) :
    (Tree.group inner).TakesSteps steps where
  calls := by rw [Tree.calls, h.calls]
  events answer := by rw [evaluate, h.events]
  value answer other := by
    rw [evaluate]
    exact h.value answer other

/-- The failures of an operator under one choice of answers are those under all. -/
theorem join {o : Operator} {lhs rhs : Tree} {left right : List Step} (hl : lhs.TakesSteps left)
    (hr : rhs.TakesSteps right) (given : Query → Float) :
    (o.join lhs rhs).TakesSteps (left ++ right ++
      (o.errors (lhs.evaluate.value given) (rhs.evaluate.value given)).map
        (Step.coercion · lhs.line)) where
  calls := by
    have hnone : ∀ errors : List CoercionError,
        (errors.map (Step.coercion · lhs.line)).filterMap Step.call? = [] := fun errors => by
      simp [List.filterMap_map, Function.comp_def, Step.call?]
    rw [List.filterMap_append, List.filterMap_append, hl.calls, hr.calls, hnone, List.append_nil,
      calls_join]
  events answer := by
    have herrors := o.errors_eq (hl.value answer given) (hr.value answer given)
    rw [evaluate_join]
    simp only [Performance.events_bind, Operator.events_apply, hl.events, hr.events, herrors,
      List.map_append, List.map_map, List.append_assoc]
    rfl
  value answer other := by
    rw [evaluate_join]
    simp only [Performance.value_bind]
    exact o.alike_apply answer _ _ _ _ _ other

variable {name : String} {arguments : TreeArguments} {line : Nat}

theorem unknown (hname : BuiltIn.lookup? name = none) :
    (Tree.call name arguments line).TakesSteps [.call ⟨name, arguments, line⟩] where
  calls := by
    rw [calls_of_none (by simp [Call.argument?, hname])]
    rfl
  events answer := by
    rw [evaluate_unknown hname, List.map_singleton, Step.event, Call.event_of_unknown hname,
      BuiltIn.events_applyUnknown]
  value answer other := by
    rw [evaluate_unknown hname]
    exact .number _ _

theorem bare {f : BuiltIn} (hname : BuiltIn.lookup? name = some f)
    (hchoose : f.choose? arguments = none) :
    (Tree.call name arguments line).TakesSteps [.call ⟨name, arguments, line⟩] := by
  have hargument : (⟨name, arguments, line⟩ : Call).argument? = none := by
    simp [Call.argument?, hname, hchoose]
  refine ⟨?_, fun answer => ?_, fun answer other => ?_⟩
  · rw [calls_of_none hargument]
    rfl
  · rw [evaluate_bare hname hchoose, BuiltIn.events_apply, List.map_singleton, Step.event,
      Call.event_of_known hname, Call.text?, hargument, Option.map_none]
  · rw [evaluate_bare hname hchoose, BuiltIn.value_apply, BuiltIn.value_apply]
    exact .number _ _

theorem argument {f : BuiltIn} {t : Tree} {steps : List Step} (h : t.TakesSteps steps)
    (hname : BuiltIn.lookup? name = some f) (hchoose : f.choose? arguments = some t) :
    (Tree.call name arguments line).TakesSteps (steps ++ [.call ⟨name, arguments, line⟩]) := by
  have hargument : (⟨name, arguments, line⟩ : Call).argument? = some t := by
    simp [Call.argument?, hname, hchoose]
  refine ⟨?_, fun answer => ?_, fun answer other => ?_⟩
  · rw [calls_of_some hargument, List.filterMap_append, h.calls]
    rfl
  · rw [evaluate_argument hname hchoose, Performance.events_bind, BuiltIn.events_apply, h.events,
      List.map_append, List.map_singleton, Step.event, Call.event_of_known hname, Call.text?,
      hargument, Option.map_some]
  · rw [evaluate_argument hname hchoose, Performance.value_bind, Performance.value_bind,
      BuiltIn.value_apply, BuiltIn.value_apply]
    exact .number _ _

end TakesSteps

/-- **An evaluation takes the same steps under all answers**, and its value is of one kind. The
    induction carries both, since what a coercion reports depends on the values before it. -/
theorem exists_steps (t : Tree) : ∃ steps, t.TakesSteps steps := by
  induction t using evaluated_induct with
  | atom literal line => exact ⟨_, .atom literal line⟩
  | group inner ih =>
    obtain ⟨steps, h⟩ := ih
    exact ⟨_, h.group⟩
  | join o lhs rhs ihl ihr =>
    obtain ⟨left, hl⟩ := ihl
    obtain ⟨right, hr⟩ := ihr
    exact ⟨_, hl.join hr fun _ => 0.0⟩
  | unknown name arguments line hname => exact ⟨_, .unknown hname⟩
  | bare name arguments line f hname hchoose => exact ⟨_, .bare hname hchoose⟩
  | argument name arguments line f t hname hchoose ih =>
    obtain ⟨steps, h⟩ := ih
    exact ⟨_, h.argument hname hchoose⟩

end Tree

/-! ## What answers can change -/

/-- The events are equal, or ask for the sizes of two directories. -/
inductive Event.Agree : Event → Event → Prop where
  | same (e : Event) : Agree e e
  | directory (path other : String) : Agree (.query (.directory path)) (.query (.directory other))

/-- The tree has a call of a known function in a consulted position. -/
def Tree.Asks (t : Tree) : Prop := ∃ c ∈ t.calls, (BuiltIn.lookup? c.name).isSome = true

/-- A tree that asks nothing has one value. -/
theorem Tree.value_eq_of_not_asks {t : Tree} (h : ¬t.Asks) (answer other : Query → Float) :
    t.evaluate.value answer = t.evaluate.value other := by
  have hcall : ∀ name arguments line f, BuiltIn.lookup? name = some f →
      (call name arguments line).Asks := by
    intro name arguments line f hname
    refine ⟨⟨name, arguments, line⟩, ?_, by rw [hname]; rfl⟩
    cases hargument : (⟨name, arguments, line⟩ : Call).argument? with
    | none => simp [calls_of_none hargument]
    | some t => simp [calls_of_some hargument]
  induction t using Tree.evaluated_induct with
  | atom literal line =>
    rw [evaluate]
    rfl
  | group inner ih =>
    rw [Asks, calls] at h
    rw [evaluate]
    exact ih h
  | join o lhs rhs ihl ihr =>
    rw [Asks, calls_join] at h
    have hl : ¬lhs.Asks := by
      rintro ⟨c, hc, hname⟩
      exact h ⟨c, List.mem_append_left _ hc, hname⟩
    have hr : ¬rhs.Asks := by
      rintro ⟨c, hc, hname⟩
      exact h ⟨c, List.mem_append_right _ hc, hname⟩
    rw [evaluate_join]
    simp only [Performance.value_bind, ihl hl, ihr hr]
    cases o <;> simp [Operator.apply, Comparison.apply, Connective.apply]
  | unknown name arguments line hname =>
    rw [evaluate_unknown hname]
    rfl
  | bare name arguments line f hname hchoose => exact absurd (hcall name arguments line f hname) h
  | argument name arguments line f t hname hchoose ih =>
    exact absurd (hcall name arguments line f hname) h

namespace Call

variable (c : Call) (answer other : Query → Float)

/-- A call records the same under all answers, up to the path of a directory. -/
theorem agree : Event.Agree (c.event answer) (c.event other) := by
  cases hname : BuiltIn.lookup? c.name with
  | none =>
    rw [event_of_unknown hname, event_of_unknown hname]
    exact .same _
  | some f =>
    have hmem := List.mem_of_find?_eq_some hname
    simp only [BuiltIn.table, List.mem_cons, List.not_mem_nil, or_false] at hmem
    rw [event_of_known hname, event_of_known hname]
    rcases hmem with rfl | rfl
    · exact .same _
    · exact .directory _ _

/-- A path depends on the answers only if something is asked to find it. -/
theorem asks_of_event_ne {c : Call} {answer other : Query → Float}
    (h : c.event answer ≠ c.event other) : ∃ t, c.argument? = some t ∧ t.Asks := by
  by_contra hnone
  have htext : c.text? answer = c.text? other := by
    rw [text?, text?]
    cases hargument : c.argument? with
    | none => rfl
    | some t =>
      have hasks : ¬t.Asks := fun hasks => hnone ⟨t, hargument, hasks⟩
      rw [Option.map_some, Option.map_some, Tree.value_eq_of_not_asks hasks answer other]
  rw [event, event, query?, query?, htext] at h
  exact h rfl

end Call

/-! ## Expressions -/

/-- Two evaluations of an expression whose tree and steps are given, on stages that may answer
    differently. -/
structure Expression.Consults (e : Expression) (t : Tree) (steps : List Step) (r s : Recording) :
    Prop where
  tree : e.tree? = some t
  /-- Both stages record the steps, one event each. -/
  left : (e.evaluate.onRecording r).2 = r.append (steps.map (Step.event r.answer))
  right : (e.evaluate.onRecording s).2 = s.append (steps.map (Step.event s.answer))
  /-- The two events of a step are equal up to the path of a directory. -/
  agree : ∀ x ∈ steps, Event.Agree (x.event r.answer) (x.event s.answer)
  /-- Two paths differ only if the argument of their call asks something itself. -/
  paths : ∀ x ∈ steps, x.event r.answer ≠ x.event s.answer →
    ∃ c argument, x = .call c ∧ c.argument? = some argument ∧ argument.Asks
  /-- The steps that are calls are the consulted calls, one each, operands and arguments first. -/
  calls : steps.filterMap Step.call? = t.calls
  /-- The questions are those of the consulted calls of known functions. An unknown function has
      none, and is reported in its place. -/
  queries : (steps.map (Step.event r.answer)).filterMap Event.query? =
    t.calls.filterMap (Call.query? r.answer)
  /-- The results are of one kind. -/
  values : (e.evaluate.onRecording r).1.Alike (e.evaluate.onRecording s).1

/-- **Nothing that an expression does depends on the answers**, up to paths that were computed from
    answers: nothing is skipped. -/
theorem Expression.consults (e : Expression) (sound : e.Sound) :
    ∃ t steps, ∀ r s : Recording, e.Consults t steps r s := by
  obtain ⟨t, ht⟩ := sound.exists_tree?
  obtain ⟨steps, hcalls, hevents, hvalues⟩ := t.exists_steps
  have hrecords : ∀ r : Recording,
      (e.evaluate.onRecording r).2 = r.append (steps.map (Step.event r.answer)) := by
    intro r
    rw [Performance.onRecording_eq, evaluate_of_tree? ht, hevents]
  refine ⟨t, steps, fun r s => ⟨ht, hrecords r, hrecords s, fun x _ => ?_, fun x _ hne => ?_,
    hcalls, ?_, ?_⟩⟩
  · cases x with
    | coercion error line => exact .same _
    | call c => exact c.agree r.answer s.answer
  · cases x with
    | coercion error line => exact absurd rfl hne
    | call c =>
      obtain ⟨argument, hargument, hasks⟩ := Call.asks_of_event_ne hne
      exact ⟨c, argument, rfl, hargument, hasks⟩
  · rw [Step.filterMap_query?, hcalls]
  · rw [Performance.onRecording_eq, Performance.onRecording_eq, evaluate_of_tree? ht]
    exact hvalues r.answer s.answer

/-- A path that is computed from an answer, an unknown function, and a text that is no number. -/
theorem Expression.consults_nested :
    ∃ t steps, ∀ r s : Recording,
      (Expression.ofTree (.connective .conjunction
        (.comparison .less
          (.call "ファイル" (.cons none (.call "ファイル" (.cons none (.atom (.word "家") 1) .nil) 1) .nil)
            1)
          (.atom (.word "多数") 1))
        (.call "謎" (.cons none (.call "現在時刻" .nil 1) .nil) 1))).Consults t steps r s :=
  Expression.consults _ (Expression.sound_ofTree _)

/-- Not every consulted call asks something. An unknown function has nothing to ask. -/
theorem Expression.query_count_ne_unknown :
    (ofTree (.call "謎" .nil 1)).Sound ∧
      (ofTree (.call "謎" .nil 1)).tree? = some (.call "謎" .nil 1) ∧
      (((ofTree (.call "謎" .nil 1)).evaluate.onRecording .empty).2.events.toList.filterMap
        Event.query?).length ≠ (Tree.call "謎" .nil 1).calls.length := by
  have hname : BuiltIn.lookup? "謎" = none := by decide
  have hargument : (⟨"謎", .nil, 1⟩ : Call).argument? = none := by simp [Call.argument?, hname]
  refine ⟨sound_ofTree _, tree?_ofTree _, ?_⟩
  rw [Performance.onRecording_eq, evaluate_ofTree, Tree.evaluate_unknown hname,
    BuiltIn.events_applyUnknown, Tree.calls_of_none hargument]
  decide

end StageScript
