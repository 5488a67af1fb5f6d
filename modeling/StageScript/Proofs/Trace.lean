import StageScript.Run.Execute
import StageScript.Stage.Recording

set_option autoImplicit false

/-! # The trace of a performance

A recording stage answers a question in the same way however much it has recorded. On such a stage
a performance is a value and a list of events, both given by the answers alone, and both split where
the performance does: `Performance.onRecording_eq` with `value_bind` and `events_bind`. -/

namespace StageScript

/-! ## Under fixed answers -/

namespace Performance

variable {α β : Type}

/-- What a performance comes to under the given answers. -/
def value (answer : Query → Float) : Performance α → α
  | done value => value
  | act _ next => next.value answer
  | note _ next => next.value answer
  | ask q next => (next (answer q)).value answer

/-- What an onlooker sees of a performance under the given answers. -/
def events (answer : Query → Float) : Performance α → List Event
  | done _ => []
  | act a next => .act a :: next.events answer
  | note _ next => next.events answer
  | ask q next => .query q :: (next (answer q)).events answer

variable (answer : Query → Float)

@[simp] theorem value_pure (x : α) : (pure x : Performance α).value answer = x := rfl

@[simp] theorem events_pure (x : α) : (pure x : Performance α).events answer = [] := rfl

@[simp] theorem value_bind (p : Performance α) (f : α → Performance β) :
    (p >>= f).value answer = (f (p.value answer)).value answer := by
  rw [bind_eq]
  induction p with
  | done x => rfl
  | act a next ih => simpa [Performance.bind, value] using ih
  | note n next ih => simpa [Performance.bind, value] using ih
  | ask q next ih => simpa [Performance.bind, value] using ih (answer q)

@[simp] theorem events_bind (p : Performance α) (f : α → Performance β) :
    (p >>= f).events answer = p.events answer ++ (f (p.value answer)).events answer := by
  rw [bind_eq]
  induction p with
  | done x => rfl
  | act a next ih => simpa [Performance.bind, value, events] using ih
  | note n next ih => simpa [Performance.bind, value, events] using ih
  | ask q next ih => simpa [Performance.bind, value, events] using ih (answer q)

@[simp] theorem events_perform (a : Act) : (perform a).events answer = [.act a] := rfl

@[simp] theorem events_report (d : Diagnostic) :
    (report d).events answer = [.act (.report d)] := rfl

@[simp] theorem events_debug (message : String) : (debug message).events answer = [] := rfl

@[simp] theorem events_info (message : String) : (info message).events answer = [] := rfl

@[simp] theorem value_query (q : Query) : (query q).value answer = answer q := rfl

@[simp] theorem events_query (q : Query) : (query q).events answer = [.query q] := rfl

end Performance

/-! ## On a recording stage -/

/-- The stage after some more events. -/
def Recording.append (r : Recording) (es : List Event) : Recording :=
  { r with events := r.events ++ es.toArray }

/-- Recording changes no answer. -/
theorem Recording.answer_append (r : Recording) (es : List Event) :
    (r.append es).answer = r.answer := by
  funext q
  cases q <;> rfl

theorem Recording.record_append (r : Recording) (e : Event) (es : List Event) :
    (r.record e).append es = r.append (e :: es) := by
  simp [Recording.record, Recording.append]

/-- **A recording stage records the trace of a performance.** -/
theorem Performance.onRecording_eq {α : Type} (p : Performance α) (r : Recording) :
    p.onRecording r = (p.value r.answer, r.append (p.events r.answer)) := by
  induction p generalizing r with
  | done x => simp [onRecording, value, events, Recording.append]
  | act a next ih =>
    have hanswer : (r.record (.act a)).answer = r.answer := r.answer_append [.act a]
    rw [onRecording, ih, hanswer, Recording.record_append, value, events]
  | note n next ih => rw [onRecording, ih, value, events]
  | ask q next ih =>
    have hanswer : (r.record (.query q)).answer = r.answer := r.answer_append [.query q]
    rw [onRecording, ih, hanswer, Recording.record_append, value, events]

/-! ## Coercions -/

/-- The report on a value that is not what it is taken for. -/
def CoercionError.event (line : Nat) (e : CoercionError) : Event :=
  .act (.report (.coercion e line))

/-- What keeps a value from being a number. -/
def Value.numberError? (v : Value) : Option CoercionError :=
  match v.asNumber with
  | .ok _ => none
  | .error e => some e

/-- What keeps a value from being a truth value. -/
def Value.truthError? (v : Value) : Option CoercionError :=
  match v.asBool with
  | .ok _ => none
  | .error e => some e

theorem Value.asNumber_text (s : String) :
    (text s).asNumber = (readNumber? s).elim (.error (.notANumber s)) .ok := by
  unfold asNumber
  dsimp only
  cases readNumber? s <;> rfl

variable (answer : Query → Float)

@[simp] theorem Value.value_coerceNumber (v : Value) (line : Nat) :
    (v.coerceNumber line).value answer = v.toNumber := by
  rw [coerceNumber, toNumber]
  cases v.asNumber <;> simp [Except.toOption]

@[simp] theorem Value.events_coerceNumber (v : Value) (line : Nat) :
    (v.coerceNumber line).events answer = v.numberError?.toList.map (CoercionError.event line) := by
  rw [coerceNumber, numberError?]
  cases v.asNumber <;> simp [CoercionError.event]

@[simp] theorem Value.value_coerceBool (v : Value) (line : Nat) :
    (v.coerceBool line).value answer = v.toBool := by
  rw [coerceBool, toBool]
  cases v.asBool <;> simp [Except.toOption]

@[simp] theorem Value.events_coerceBool (v : Value) (line : Nat) :
    (v.coerceBool line).events answer = v.truthError?.toList.map (CoercionError.event line) := by
  rw [coerceBool, truthError?]
  cases v.asBool <;> simp [CoercionError.event]

/-! ## Applications -/

/-- The operator applied to two values. -/
def Operator.apply (lhs rhs : Value) (line : Nat) : Operator → Performance Value
  | comparison c => c.apply lhs rhs line
  | connective c => c.apply lhs rhs line

/-- The failures of the two coercions. -/
def Operator.errors (lhs rhs : Value) : Operator → List CoercionError
  | comparison _ => lhs.numberError?.toList ++ rhs.numberError?.toList
  | connective _ => lhs.truthError?.toList ++ rhs.truthError?.toList

@[simp] theorem Operator.events_apply (o : Operator) (lhs rhs : Value) (line : Nat) :
    (o.apply lhs rhs line).events answer = (o.errors lhs rhs).map (CoercionError.event line) := by
  cases o <;> simp [apply, errors, Comparison.apply, Connective.apply]

@[simp] theorem BuiltIn.events_apply (f : BuiltIn) (text : Option String) (line : Nat) :
    (f.apply text line).events answer = [.query (f.query text)] := by
  simp [apply, call]

@[simp] theorem BuiltIn.value_apply (f : BuiltIn) (text : Option String) (line : Nat) :
    (f.apply text line).value answer = .number (answer (f.query text)) := by
  simp [apply, call]

@[simp] theorem BuiltIn.events_applyUnknown (name : String) (line : Nat) :
    (applyUnknown name line).events answer = [.act (.report (.unknownFunction name line))] := by
  simp [applyUnknown]

end StageScript
