import Mathlib.Logic.Function.Iterate
import StageScript.Proofs.Lexeme
import StageScript.Token.Lexer

set_option autoImplicit false

/-! # Lexers and readers as streams

A stream lays out what a lexer yields call by call: its first item is the answer to the next call,
and the rest is what the lexer behind it yields (`Lexer.next_eq`). A reader gives the same items,
however often it looks at one before it takes it (`Reader.Shows.answer`), so what it answers to any
calls and what it has left behind them can be told from the stream. -/

namespace StageScript

/-! ## Scanning -/

namespace Scanner

/-- The scan takes what starts at a character and goes on behind it. -/
theorem itemsAt_cons (p : Place) (c : Char) (cs : List Char) :
    itemsAt 0 p (c :: cs) =
      ((shape c cs).1.item? p (c :: cs.take (shape c cs).2)).toList ++
        itemsAt 0 (p.afterAll (c :: cs.take (shape c cs).2)) (cs.drop (shape c cs).2) := by
  rw [itemsAt]
  dsimp only
  rw [itemsAt_skip]
  split
  · next item hitem => simp only [hitem, Option.toList_some, List.singleton_append]; rfl
  · next hnone => simp only [hnone, Option.toList_none, List.nil_append]; rfl

/-- The stream of a text is that behind what starts at its first character, with this in front. -/
theorem streamAt_cons (p : Place) (c : Char) (cs : List Char) :
    let (s, more) := shape c cs
    let rest := streamAt (p.afterAll (c :: cs.take more)) (cs.drop more)
    streamAt p (c :: cs) =
      { rest with items := (s.item? p (c :: cs.take more)).toList ++ rest.items } := by
  have hstop : (p.afterAll (c :: cs.take (shape c cs).2)).afterAll (cs.drop (shape c cs).2) =
      p.afterAll (c :: cs) := by
    rw [← Place.afterAll_append, List.cons_append, List.take_append_drop]
  simp only [streamAt, itemsAt_cons, hstop]

end Scanner

/-! ## Lexers -/

namespace Lexer

open Scanner

/-- Skipped characters only move the place. -/
theorem nextAt_skip (skip : Nat) (p : Place) (cs : List Char) :
    nextAt skip p cs = nextAt 0 (p.afterAll (cs.take skip)) (cs.drop skip) := by
  induction cs generalizing skip p with
  | nil => cases skip <;> rfl
  | cons c cs ih =>
    cases skip with
    | zero => rfl
    | succ skip => simpa [nextAt, Place.afterAll] using ih skip (p.after c)

/-- A call gives the first item of the stream and leaves the rest. -/
theorem next_eq (l : Lexer) : l.next.1 = l.stream.head ∧ l.behind.stream = l.stream.tail := by
  obtain ⟨p, cs⟩ := l
  match cs with
  | [] => exact ⟨rfl, rfl⟩
  | c :: cs =>
    have hstream := streamAt_cons p c cs
    dsimp only at hstream
    rw [behind, next, stream, hstream, nextAt]
    dsimp only
    split
    · next x hx =>
      rw [hx]
      exact ⟨rfl, rfl⟩
    · next hnone =>
      have hrest := next_eq ⟨p.afterAll (c :: cs.take (shape c cs).2), cs.drop (shape c cs).2⟩
      rw [nextAt_skip, hnone]
      exact hrest
termination_by l.chars.length
decreasing_by simp only [List.length_cons, List.length_drop]; omega

/-- Call by call a lexer goes through its stream. -/
theorem stream_iterate_behind (l : Lexer) (n : Nat) :
    (behind^[n] l).stream = Stream.tail^[n] l.stream := by
  induction n with
  | zero => rfl
  | succ n ih => rw [Function.iterate_succ_apply', Function.iterate_succ_apply', (next_eq _).2, ih]

end Lexer

/-! ## Streams -/

namespace Stream

/-- The stream after a call. -/
def afterCall (s : Stream) : Reader.Call → Stream
  | .peek => s
  | .next => s.tail

/-- The stream after some calls. -/
def afterCalls (s : Stream) (calls : List Reader.Call) : Stream := calls.foldl afterCall s

/-- The items that some calls find. -/
def found (s : Stream) : List Reader.Call → List Item
  | [] => []
  | c :: calls => s.head :: (s.afterCall c).found calls

theorem afterCalls_append (s : Stream) (calls more : List Reader.Call) :
    s.afterCalls (calls ++ more) = (s.afterCalls calls).afterCalls more := List.foldl_append

theorem found_append (s : Stream) (calls more : List Reader.Call) :
    s.found (calls ++ more) = s.found calls ++ (s.afterCalls calls).found more := by
  induction calls generalizing s with
  | nil => rfl
  | cons c calls ih => exact congrArg _ (ih _)

end Stream

/-! ## Readers -/

namespace Reader

/-- What has been looked at, if anything, and then what the lexer yields is the stream. -/
def Shows (r : Reader) (s : Stream) : Prop :=
  match r.lookahead with
  | none => r.lexer.stream = s
  | some x => x = s.head ∧ r.lexer.stream = s.tail

theorem after_append (r : Reader) (calls more : List Call) :
    r.after (calls ++ more) = (r.after calls).after more := List.foldl_append

theorem shows_ofText (text : List Char) : (ofText text).Shows (.ofText text) := rfl

namespace Shows

variable {r : Reader} {s : Stream}

/-- A call is answered with the first item of the stream, and takes it if it should. -/
theorem answer (h : r.Shows s) (c : Call) :
    (r.answer c).1 = s.head ∧ (r.answer c).2.Shows (s.afterCall c) := by
  obtain ⟨l, lookahead⟩ := r
  obtain ⟨hnext, hbehind⟩ := l.next_eq
  cases lookahead with
  | some x =>
    obtain ⟨rfl, hl⟩ := h
    cases c with
    | peek => exact ⟨rfl, rfl, hl⟩
    | next => exact ⟨rfl, hl⟩
  | none =>
    obtain rfl : l.stream = s := h
    cases c with
    | peek => exact ⟨hnext, hnext, hbehind⟩
    | next => exact ⟨hnext, hbehind⟩

/-- Calls are answered with what they find in the stream, and leave what they leave of it. -/
theorem answers (h : r.Shows s) (calls : List Call) :
    r.answers calls = s.found calls ∧ (r.after calls).Shows (s.afterCalls calls) := by
  induction calls generalizing r s with
  | nil => exact ⟨rfl, h⟩
  | cons c calls ih =>
    obtain ⟨hfirst, hshows⟩ := h.answer c
    obtain ⟨hrest, hafter⟩ := ih hshows
    exact ⟨congrArg₂ List.cons hfirst hrest, hafter⟩

end Shows

end Reader

end StageScript
