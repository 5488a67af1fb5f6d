import StageScript.Run.Diagnostic
import StageScript.Run.Log

set_option autoImplicit false

/-! # Performances

A performance is what a script does on a stage, before any stage is chosen: it acts, asks, notes
down, and comes to a value in the end. What it does after asking depends on the answer alone. A
stage carries a performance out by a recursion over it. -/

namespace StageScript

/-! ## Steps -/

/-- Something that reaches the outside. -/
inductive Act where
  /-- The character says a line. -/
  | say (text : String)
  /-- Mouse input is blocked or released. -/
  | blockInput (blocked : Bool)
  /-- A path is opened by whatever opens it. -/
  | openPath (path : String)
  | report (diagnostic : Diagnostic)
  deriving DecidableEq

/-- A question that is answered by a number. -/
inductive Query where
  /-- How many entries a directory has. -/
  | directory (path : String)
  /-- The time of day, hours before minutes. -/
  | clock
  deriving DecidableEq

/-- An act or a question, as an onlooker sees it. -/
inductive Event where
  | act (act : Act)
  | query (query : Query)
  deriving DecidableEq

/-! ## Sequences of steps -/

/-- Steps that come to a value. -/
inductive Performance (α : Type) where
  | done (value : α)
  | act (act : Act) (next : Performance α)
  | note (record : LogRecord) (next : Performance α)
  | ask (query : Query) (next : Float → Performance α)

namespace Performance

/-- Goes on with the value. -/
protected def bind {α β : Type} : Performance α → (α → Performance β) → Performance β
  | done value, f => f value
  | act a next, f => act a (next.bind f)
  | note r next, f => note r (next.bind f)
  | ask q next, f => ask q fun x => (next x).bind f

instance : Monad Performance where
  pure := done
  bind := Performance.bind

/-- A single act. -/
def perform (a : Act) : Performance Unit := act a (done ())

/-- A single question. -/
def query (q : Query) : Performance Float := ask q done

/-- Reports a diagnostic. -/
def report (d : Diagnostic) : Performance Unit := perform (.report d)

/-- Notes down some detail. -/
def debug (message : String) : Performance Unit := note ⟨.debug, message⟩ (done ())

/-- Notes down a result. -/
def info (message : String) : Performance Unit := note ⟨.info, message⟩ (done ())

theorem bind_eq {α β : Type} (p : Performance α) (f : α → Performance β) :
    p >>= f = p.bind f := rfl

/-- What is there at once is gone on with. -/
theorem bind_of_pure {α β : Type} (x : α) (f : α → Performance β) :
    (pure x : Performance α) >>= f = f x := rfl

/-- Coming to a value at once and going on with it changes nothing. -/
theorem bind_done {α : Type} (p : Performance α) : p.bind done = p := by
  induction p with
  | done value => rfl
  | act a next ih => simp [Performance.bind, ih]
  | note r next ih => simp [Performance.bind, ih]
  | ask q next ih => simp [Performance.bind, ih]

/-- Steps in a row may be grouped either way. -/
theorem bind_assoc {α β γ : Type} (p : Performance α) (f : α → Performance β)
    (g : β → Performance γ) : (p.bind f).bind g = p.bind fun x => (f x).bind g := by
  induction p with
  | done value => rfl
  | act a next ih => simp [Performance.bind, ih]
  | note r next ih => simp [Performance.bind, ih]
  | ask q next ih => simp [Performance.bind, ih]

end Performance

end StageScript
