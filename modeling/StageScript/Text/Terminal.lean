set_option autoImplicit false

/-! # Text without terminal control

A log is read as plain text, so what would steer a terminal is taken out of it: the control
sequences that the escape character opens, and the control characters that are no white space.

White space between the characters of a short sequence is kept, and the text after it too, up to
the next control character, where the sequence goes on (`Reading.paused`). A sequence that carries
a string swallows everything up to its end, newlines too. What is left holds kept characters only
(`isKept_of_mem_plainChars`), so a plain text stays as it is (`plainChars_eq_self`). -/

namespace StageScript.Text

/-! ## Sequences -/

/-- How far a control sequence has been read. -/
inductive Sequence where
  /-- After the escape character. -/
  | escape
  /-- Among the intermediate characters of an escape sequence. -/
  | intermediate
  /-- Among the parameters of a control function. -/
  | control
  /-- In a command to the system, which a bell ends. -/
  | command
  /-- At the start of a string for a device. -/
  | device
  /-- Among the parameters of a string for a device. -/
  | deviceParameters
  /-- Among the intermediate characters of a string for a device. -/
  | deviceIntermediate
  /-- In a string that only its terminator ends. -/
  | string
  deriving DecidableEq

/-- The character lies between two others, ends included. -/
def isBetween (low high c : Char) : Bool := low ≤ c && c ≤ high

/-- One of the bytes of the character is the string terminator. -/
def holdsTerminator (c : Char) : Bool := (String.utf8EncodeChar c).contains 0x9c

namespace Sequence

/-- What a character makes of a sequence; nothing is left of one that it ends. -/
def next (q : Sequence) (c : Char) : Option Sequence :=
  match q with
  | escape =>
    if isBetween ' ' '/' c then some intermediate
    else if c == '[' then some control
    else if c == ']' then some command
    else if c == 'P' then some device
    else if c == 'X' || c == '^' || c == '_' then some string
    else if isBetween '0' '~' c then none
    else some escape
  | intermediate => if isBetween '0' '~' c then none else some intermediate
  | control => if isBetween '@' '~' c then none else some control
  | command => if c == '\x07' then none else some command
  | device =>
    if isBetween ' ' '/' c then some deviceIntermediate
    else if isBetween '0' '?' c then some deviceParameters
    else if isBetween '@' '~' c then some string
    else some device
  | deviceParameters =>
    if isBetween ' ' '/' c then some deviceIntermediate
    else if isBetween '<' '~' c then some string
    else some deviceParameters
  | deviceIntermediate => if isBetween '0' '~' c then some string else some deviceIntermediate
  | string => if holdsTerminator c then none else some string

/-- White space within the sequence is kept rather than swallowed. -/
def isShort : Sequence → Bool
  | escape | intermediate | control => true
  | command | device | deviceParameters | deviceIntermediate | string => false

end Sequence

/-! ## Reading -/

/-- ASCII white space other than the blank: tab, newline, form feed and carriage return. -/
def isBreak (c : Char) : Bool := c == '\t' || c == '\n' || c == '\x0c' || c == '\r'

/-- No ASCII control character, or one that is white space. -/
def isKept (c : Char) : Bool := isBreak c || (' ' ≤ c && c != '\x7f')

/-- Where the reading of a text stands. -/
inductive Reading where
  | text
  | inside (q : Sequence)
  /-- In text, with a sequence still open. -/
  | paused (q : Sequence)
  deriving DecidableEq

namespace Reading

/-- Reads a character of text while a sequence may be open: a control character goes on with it,
    and a character beyond ASCII drops it. -/
def resume (q : Sequence) (c : Char) : Reading :=
  if !isKept c then inside q else if c.toNat < 0x80 then paused q else text

/-- Reads a character within a sequence. -/
def advance (q : Sequence) (c : Char) : Reading :=
  if q.isShort && isBreak c then paused q
  else match q.next c with
    | some q => inside q
    | none => text

/-- Reads a character. The escape character opens a sequence wherever it stands, and the cancel and
    substitute characters drop whatever is open. -/
def step (r : Reading) (c : Char) : Reading :=
  if c == '\x1b' then inside .escape
  else if c == '\x18' || c == '\x1a' then text
  else match r with
    | text => text
    | inside q => advance q c
    | paused q => resume q c

/-- Whether a character is kept that is read here. -/
def keeps (r : Reading) (c : Char) : Bool :=
  match r with
  | text | paused _ => isKept c
  | inside q => q.isShort && isBreak c

theorem isKept_of_keeps {r : Reading} {c : Char} (h : r.keeps c = true) : isKept c = true := by
  cases r with
  | text => exact h
  | paused q => exact h
  | inside q =>
    have hb : isBreak c = true := (Bool.and_eq_true_iff.1 h).2
    simp [isKept, hb]

end Reading

/-- The characters that are kept, read from a given state on. -/
def plainChars : Reading → List Char → List Char
  | _, [] => []
  | r, c :: cs => if r.keeps c then c :: plainChars (r.step c) cs else plainChars (r.step c) cs

/-- A text without what would steer a terminal. -/
def plain (s : String) : String := String.ofList (plainChars .text s.toList)

@[simp] theorem toList_plain (s : String) : (plain s).toList = plainChars .text s.toList := by
  simp [plain]

/-! ## What is left -/

theorem isKept_of_mem_plainChars {r : Reading} {cs : List Char} {c : Char}
    (h : c ∈ plainChars r cs) : isKept c = true := by
  induction cs generalizing r with
  | nil => cases h
  | cons d cs ih =>
    rw [plainChars] at h
    split at h
    · rename_i hd
      cases h with
      | head => exact Reading.isKept_of_keeps hd
      | tail _ h => exact ih h
    · exact ih h

theorem step_text {c : Char} (h : isKept c = true) : Reading.text.step c = .text := by
  have hc : c ≠ '\x1b' := by
    intro hc
    subst hc
    exact absurd h (by decide)
  simp [Reading.step, hc]

/-- A text of kept characters is left as it is. -/
theorem plainChars_eq_self {cs : List Char} (h : ∀ c ∈ cs, isKept c = true) :
    plainChars .text cs = cs := by
  induction cs with
  | nil => rfl
  | cons c cs ih =>
    have hc : isKept c = true := h c List.mem_cons_self
    rw [plainChars, step_text hc, ih fun d hd => h d (List.mem_cons_of_mem c hd)]
    exact if_pos hc

end StageScript.Text
