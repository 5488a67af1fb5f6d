set_option autoImplicit false

/-! # Spans of source text

A span is a run of bytes of the UTF-8 form of a script, given by its start and its length, each in
a word of thirty-two bits. `slice?` takes its characters out of a text, and `charRange` restates it
in characters; a cut that is not between two characters, or that lies beyond the text, counts as
zero. -/

namespace StageScript

/-- A run of bytes. -/
structure Span where
  start : UInt32
  length : UInt32
  deriving DecidableEq

namespace Span

/-! ## Bounds -/

/-- The bytes from `start` up to, but not including, `stop`; none if `stop` comes first. -/
def between (start stop : Nat) : Span := ⟨start.toUInt32, (stop - start).toUInt32⟩

/-- The position of the first byte. -/
def first (s : Span) : Nat := s.start.toNat

/-- The position after the last byte. -/
def stop (s : Span) : Nat := (s.start + s.length).toNat

/-- The smallest span that holds both. -/
def merge (s t : Span) : Span := between (min s.first t.first) (max s.stop t.stop)

@[simp] theorem first_between (start stop : Nat) :
    (between start stop).first = start % 4294967296 := rfl

/-- Below the word size the end of a span is where it was put. -/
theorem stop_between {start stop : Nat} (h : start ≤ stop) (small : stop < 4294967296) :
    (between start stop).stop = stop := by
  simp only [between, Span.stop, UInt32.toNat_add, Nat.toUInt32, UInt32.toNat_ofNat']
  omega

end Span

/-! ## Characters -/

namespace Text

/-- The number of bytes in the UTF-8 form of some characters. -/
def byteCount (cs : List Char) : Nat := cs.foldr (fun c bytes => c.utf8Size + bytes) 0

@[simp] theorem byteCount_nil : byteCount [] = 0 := rfl

@[simp] theorem byteCount_cons (c : Char) (cs : List Char) :
    byteCount (c :: cs) = c.utf8Size + byteCount cs := rfl

theorem byteCount_append (cs ds : List Char) :
    byteCount (cs ++ ds) = byteCount cs + byteCount ds := by
  induction cs with
  | nil => rw [List.nil_append, byteCount_nil, Nat.zero_add]
  | cons c cs ih => rw [List.cons_append, byteCount_cons, byteCount_cons, ih, Nat.add_assoc]

theorem byteCount_pos {cs : List Char} (h : cs ≠ []) : 0 < byteCount cs := by
  cases cs with
  | nil => exact absurd rfl h
  | cons c cs =>
    have := c.utf8Size_pos
    rw [byteCount_cons]
    omega

theorem byteCount_toList (s : String) : byteCount s.toList = s.utf8ByteSize := by
  suffices h : ∀ cs : List Char, byteCount cs = (String.ofList cs).utf8ByteSize by
    rw [h, String.ofList_toList]
  intro cs
  induction cs with
  | nil => rfl
  | cons c cs ih =>
    rw [byteCount_cons, ih, ← List.singleton_append, String.ofList_append,
      String.utf8ByteSize_append, ← String.singleton_eq_ofList, String.utf8ByteSize_singleton]

/-- The text cut after its first `bytes` bytes, if the cut lies between two characters. -/
def cutAt? : Nat → List Char → Option (List Char × List Char)
  | 0, cs => some ([], cs)
  | _ + 1, [] => none
  | bytes + 1, c :: cs =>
    if c.utf8Size ≤ bytes + 1 then
      (cutAt? (bytes + 1 - c.utf8Size) cs).map fun (before, after) => (c :: before, after)
    else none

/-- Every text can be cut behind any of its characters. -/
theorem cutAt?_append (before after : List Char) :
    cutAt? (byteCount before) (before ++ after) = some (before, after) := by
  induction before with
  | nil => cases after <;> rfl
  | cons c before ih =>
    have hc := c.utf8Size_pos
    obtain ⟨n, hn⟩ : ∃ n, c.utf8Size + byteCount before = n + 1 :=
      Nat.exists_eq_succ_of_ne_zero (by omega)
    have rest : n + 1 - c.utf8Size = byteCount before := by omega
    have fits : c.utf8Size ≤ n + 1 := by omega
    rw [byteCount_cons, hn, List.cons_append, cutAt?, if_pos fits, rest, ih]
    rfl

/-- The two parts of a cut make up the text, and the first has as many bytes as were asked for. -/
theorem eq_append_of_cutAt? {bytes : Nat} {cs before after : List Char}
    (h : cutAt? bytes cs = some (before, after)) :
    cs = before ++ after ∧ byteCount before = bytes := by
  induction cs generalizing bytes before with
  | nil => cases bytes <;> simp_all [cutAt?]
  | cons c cs ih =>
    cases bytes with
    | zero => simp_all [cutAt?]
    | succ bytes =>
      rw [cutAt?] at h
      split at h
      case isFalse => cases h
      case isTrue fits =>
        obtain ⟨parts, hparts, heq⟩ := Option.map_eq_some_iff.1 h
        obtain ⟨rfl, rfl⟩ := Prod.mk.inj heq
        obtain ⟨happ, hcount⟩ := ih hparts
        refine ⟨by rw [happ]; rfl, ?_⟩
        rw [byteCount_cons, hcount]
        omega

end Text

namespace Span

/-- The characters of a span, if both its ends lie between two characters of the text. -/
def slice? (s : Span) (text : List Char) : Option (List Char) :=
  match Text.cutAt? s.first text with
  | none => none
  | some (_, rest) =>
    if s.stop < s.first then none
    else (Text.cutAt? (s.stop - s.first) rest).map (·.1)

/-- The span as a half-open range of character positions in the text. -/
def charRange (s : Span) (text : List Char) : Nat × Nat :=
  let first := ((Text.cutAt? s.first text).map (·.1.length)).getD 0
  (first, first + ((s.slice? text).map List.length).getD 0)

end Span

end StageScript
