import Mathlib
import StageScript.CommandLine.Session
import StageScript.Proofs.PrintedLines
import StageScript.Proofs.Tiling

set_option autoImplicit false

/-! # The subcommands agree

Listing the tokens of a script goes through all its items, while the parser stops at the first one
with which no script goes on. A script that is parsed has no lexical error, and the parser comes
upon no other lexical error than the first, so that the two paths say the same of it. Main
statement: `Session.agreement`. -/

namespace StageScript

/-! ## Tokens and errors of a stream -/

def Item.error? : Item → Option LexicalError
  | token _ => none
  | error e => some e

namespace Stream

/-- The tokens in order, with one for the end of the file. -/
def tokens (s : Stream) : List Token := s.toList.filterMap Item.token?

/-- The lexical errors in order. -/
def errors (s : Stream) : List LexicalError := s.toList.filterMap Item.error?

theorem mem_tokens {s : Stream} {t : Token} : t ∈ s.tokens ↔ .token t ∈ s.toList := by
  rw [tokens, List.mem_filterMap]
  constructor
  · rintro ⟨x, hx, hxt⟩
    cases x <;> cases hxt
    exact hx
  · intro h
    exact ⟨_, h, rfl⟩

theorem mem_errors {s : Stream} {e : LexicalError} : e ∈ s.errors ↔ .error e ∈ s.toList := by
  rw [errors, List.mem_filterMap]
  constructor
  · rintro ⟨x, hx, hxe⟩
    cases x <;> cases hxe
    exact hx
  · intro h
    exact ⟨_, h, rfl⟩

/-- The end of the file comes last and only there. -/
theorem tokens_ofString (source : String) :
    ∃ ts : List Token, (ofString source).tokens = ts ++ [(ofString source).finish] ∧
      ∀ t ∈ ts, t.kind ≠ .endOfFile := by
  refine ⟨(ofString source).items.filterMap Item.token?, ?_, fun t ht => ?_⟩
  · rw [tokens, toList, List.filterMap_append]
    rfl
  · obtain ⟨x, hx, hxt⟩ := List.mem_filterMap.1 ht
    cases x <;> cases hxt
    exact kind_ne_endOfFile hx

end Stream

/-! ## Errors of a script -/

namespace Program

/-- What is parsed has no lexical error. -/
theorem errors_eq_nil_of_parse {source : String} {p : Program} (h : Program.parse source = .ok p) :
    (Stream.ofString source).errors = [] := by
  obtain ⟨ts, hts, -⟩ := Program.script_of_parse h
  rw [Stream.errors, hts, List.filterMap_map, List.filterMap_eq_nil_iff]
  exact fun _ _ => rfl

/-- A lexical error that the parser comes upon is the first one. -/
theorem head?_errors_of_parse_error {source : String} {e : ParseError} {l : LexicalError}
    (h : Program.parse source = .error e) (hl : e.kind = .lexical l) :
    (Stream.ofString source).errors.head? = some l ∧ e.line = l.line := by
  obtain ⟨x, hstuck, hat⟩ := Program.stuckAt?_of_parse_error h
  obtain ⟨before, q, after, hitems, -⟩ := Recognizer.exists_of_stuckAt? hstuck
  obtain rfl := (hat.lexical l).1 hl
  have hbefore : (before.map Item.token).filterMap Item.error? = [] := by
    rw [List.filterMap_map, List.filterMap_eq_nil_iff]
    exact fun _ _ => rfl
  refine ⟨?_, hat.line⟩
  rw [Stream.errors, hitems, List.filterMap_append, hbefore]
  rfl

end Program

/-! ## Sessions -/

namespace Session

/-- A plain listing has a line of output for every token and one of error output for every
    error. -/
theorem tokenize_plain (source : String) :
    tokenize .plain source =
      ⟨if (Stream.ofString source).errors.isEmpty then 0 else badScript,
        (Stream.ofString source).tokens.map Token.plain,
        (Stream.ofString source).errors.map LexicalError.plain⟩ := by
  have hout : outLine? ∘ Item.listed .plain = fun x => x.token?.map Token.plain := by
    funext x
    cases x <;> rfl
  have herr : errLine? ∘ Item.listed .plain = fun x => x.error?.map LexicalError.plain := by
    funext x
    cases x <;> rfl
  simp only [tokenize, Stream.listing, List.filterMap_map, hout, herr, Stream.tokens,
    Stream.errors, List.map_filterMap, List.isEmpty_iff, List.filterMap_eq_nil_iff,
    Option.map_eq_none_iff]

/-- Without more detail nothing is noted before the script is read. -/
theorem ofInvocation_quiet (task : Task) {path source : String} {folder : Entry} (time : Float)
    (launcher : Launcher) (h : sourceAt folder path = .ok source) :
    ofInvocation ⟨task, path, 0⟩ folder time launcher =
      perform ⟨task, path, 0⟩ source folder time launcher := by
  rw [ofInvocation, h]
  rfl

theorem parse_sexpr_of_ok {source : String} {p : Program} (h : Program.parse source = .ok p) :
    parse .sexpr source = ⟨0, [p.sexpr], []⟩ := by
  rw [parse, h]
  rfl

theorem parse_of_error {format : ProgramFormat} {source : String} {e : ParseError}
    (h : Program.parse source = .error e) : parse format source = ⟨badScript, [], [e.plain]⟩ := by
  rw [parse, h]

/-- Whatever goes wrong in a run, its code does not tell. -/
theorem code_run_of_ok {source : String} {p : Program} (h : Program.parse source = .ok p)
    (options : RunOptions) (path : String) (stage : Host) :
    (run options path source stage).code = 0 := by
  rw [run, Performance.ofSource, h]
  rfl

theorem run_of_error {source : String} {e : ParseError} (h : Program.parse source = .error e)
    {options : RunOptions} (plain : options.annotated = false) (path : String) (stage : Host) :
    run options path source stage = ⟨badScript, [], [e.plain]⟩ := by
  rw [run, Performance.ofSource, h]
  simp only [Except.map, errorLines, plain]
  rfl

/-- How listing the tokens of a script, listing its statements and running it go together. -/
structure Agreement (source : String) (listed parsed ran : Transcript) : Prop where
  /-- The tokens are listed through the end of the file. -/
  out_listed : listed.out = (Stream.ofString source).tokens.map Token.plain
  ends : ∃ ts : List Token,
    (Stream.ofString source).tokens = ts ++ [(Stream.ofString source).finish] ∧
      ∀ t ∈ ts, t.kind ≠ .endOfFile
  err_listed : listed.err = (Stream.ofString source).errors.map LexicalError.plain
  /-- What is listed comes in the order of the source. -/
  ordered : (Stream.ofString source).items.Pairwise fun x y => x.span.stop ≤ y.span.first
  isLine : ∀ line ∈ listed.out ++ listed.err, Text.IsLine line
  code_listed : listed.code = if (Stream.ofString source).errors = [] then 0 else 65
  /-- A script that is parsed is listed and run. -/
  accepted : ∀ p, Program.parse source = .ok p → parsed.code = 0 ∧ ran.code = 0
  /-- A script that is not parsed is refused with one line. -/
  refused : ∀ e, Program.parse source = .error e →
    parsed = ⟨65, [], [e.plain]⟩ ∧ ran = ⟨65, [], [e.plain]⟩ ∧ Text.IsLine e.plain
  code_of_listed : listed.code = 65 → parsed.code = 65 ∧ ran.code = 65
  /-- The parser comes upon the first lexical error only. -/
  first : ∀ e l, Program.parse source = .error e → e.kind = .lexical l →
    listed.err.head? = some e.plain
  /-- The line of an error, and of any item, is that of its span. -/
  line_eq : ∀ x ∈ (Stream.ofString source).toList,
    x.line = (LineIndex.ofText source.toList).lineAt x.span.first

/-- **The subcommands agree on every script**: what one of them refuses as no text of tokens the
    others refuse too, with its words, and nothing that goes wrong in a run changes that. -/
theorem agreement {folder : Entry} {path source : String} (small : source.utf8ByteSize < 4294967296)
    (found : sourceAt folder path = .ok source) {options : RunOptions}
    (plain : options.annotated = false) (time : Float) (launcher : Launcher) :
    Agreement source (ofInvocation ⟨.tokenize .plain, path, 0⟩ folder time launcher)
      (ofInvocation ⟨.parse .sexpr, path, 0⟩ folder time launcher)
      (ofInvocation ⟨.run options, path, 0⟩ folder time launcher) := by
  have hlisted : ofInvocation ⟨.tokenize .plain, path, 0⟩ folder time launcher =
      tokenize .plain source := ofInvocation_quiet _ time launcher found
  have hparsed : ofInvocation ⟨.parse .sexpr, path, 0⟩ folder time launcher =
      parse .sexpr source := ofInvocation_quiet _ time launcher found
  have hran : ofInvocation ⟨.run options, path, 0⟩ folder time launcher =
      run options path source (host options (LogFilter.ofVerbosity 0) folder time launcher) :=
    ofInvocation_quiet _ time launcher found
  rw [hlisted, hparsed, hran, tokenize_plain]
  refine
    { out_listed := rfl
      ends := Stream.tokens_ofString source
      err_listed := rfl
      ordered := ?ordered
      isLine := fun line hline => ?isLine
      code_listed := by simp only [List.isEmpty_iff, badScript]
      accepted := fun p hp => ?accepted
      refused := fun e he => ⟨parse_of_error he, run_of_error he plain _ _, ?oneLine⟩
      code_of_listed := fun hcode => ?code
      first := fun e l he hl => ?first
      line_eq := fun x hx => Stream.line_eq_lineAt small hx }
  case ordered =>
    refine (Scanner.tiles_itemsAt Scanner.Place.start source.toList).pairwise ?_
    rwa [Text.byteCount_toList, Scanner.Place.start, Nat.zero_add]
  case isLine =>
    rcases List.mem_append.1 hline with hline | hline
    · obtain ⟨t, ht, rfl⟩ := List.mem_map.1 hline
      exact Stream.isLine_plain_of_token (Stream.mem_tokens.1 ht)
    · obtain ⟨e, he, rfl⟩ := List.mem_map.1 hline
      exact e.kind.isLine_plainAt (Stream.ne_newline_of_error (Stream.mem_errors.1 he)) e.line
  case accepted =>
    rw [parse_sexpr_of_ok hp]
    exact ⟨rfl, code_run_of_ok hp _ _ _⟩
  case oneLine =>
    refine e.kind.isLine_plainAt (fun l hl => ?_) e.line
    have hhead := (Program.head?_errors_of_parse_error he hl).1
    exact Stream.ne_newline_of_error (Stream.mem_errors.1 (List.mem_of_head? hhead))
  case code =>
    cases hp : Program.parse source with
    | ok p => simp [Program.errors_eq_nil_of_parse hp] at hcode
    | error e =>
      rw [parse_of_error hp, run_of_error hp plain]
      exact ⟨rfl, rfl⟩
  case first =>
    obtain ⟨hhead, hline⟩ := Program.head?_errors_of_parse_error he hl
    rw [List.head?_map, hhead, ParseError.plain, hl, hline]
    rfl

/-- Two lexical errors on a line, of which the parser meets the first. -/
theorem agreement_refused :
    "あ\n! 「b".utf8ByteSize < 4294967296 ∧
      sourceAt (.folder [("a", .file "あ\n! 「b".toUTF8)]) "a" = .ok "あ\n! 「b" ∧
      parse .sexpr "あ\n! 「b" = ⟨65, [], ["[line 2] Error: Unexpected character: !"]⟩ ∧
      Agreement "あ\n! 「b"
        (ofInvocation ⟨.tokenize .plain, "a", 0⟩ (.folder [("a", .file "あ\n! 「b".toUTF8)]) 0.0)
        (ofInvocation ⟨.parse .sexpr, "a", 0⟩ (.folder [("a", .file "あ\n! 「b".toUTF8)]) 0.0)
        (ofInvocation ⟨.run ⟨true, none, false⟩, "a", 0⟩
          (.folder [("a", .file "あ\n! 「b".toUTF8)]) 0.0) := by
  have hsmall : "あ\n! 「b".utf8ByteSize < 4294967296 := by decide +kernel
  have hcontent : (Entry.folder [("a", .file "あ\n! 「b".toUTF8)]).contentAt "a" =
      .ok "あ\n! 「b".toUTF8 := by cbv
  have htext : String.fromUTF8? "あ\n! 「b".toUTF8 = some "あ\n! 「b" := by decide +kernel
  have hfound : sourceAt (.folder [("a", .file "あ\n! 「b".toUTF8)]) "a" = .ok "あ\n! 「b" := by
    simp only [sourceAt, hcontent, htext]
  exact ⟨hsmall, hfound, by decide +kernel, agreement hsmall hfound rfl 0.0 .none⟩

end Session

end StageScript
