import Mathlib.Data.Finset.Card
import StageScript.Proofs.AcceptedArguments

set_option autoImplicit false

/-! # Arguments in the order of insertion

Arguments are a map whose keys come in the order in which they are first put in, each with the
literal that is put in last: one insert keeps the order (`Arguments.FirstsOf.append`), and so do all
of them. What is written without a key is put in under the default key, whether a list gives it or
the tokens of a command. Main statement: `Arguments.insertionOrdered`. -/

namespace StageScript

namespace Arguments

/-! ## Inserts -/

/-- The key that a value is put in under: its own or, if it has none, the default key. -/
def keyOf (key : Option String) : String := key.getD defaultKey

/-- The keys of values that are put in one by one. -/
def keysOf (inserts : List (Option String × Literal)) : List String :=
  inserts.map fun entry => keyOf entry.1

/-- The last of the literals that are put in under a key. -/
def lastUnder? (key : String) (inserts : List (Option String × Literal)) : Option Literal :=
  (inserts.filter fun entry => keyOf entry.1 = key).getLast?.map (·.2)

/-- The arguments with values put in one by one. -/
def insertAll (a : Arguments) (inserts : List (Option String × Literal)) : Arguments :=
  inserts.foldl (fun b entry => b.insert (keyOf entry.1) entry.2) a

theorem insertAll_append_singleton (a : Arguments) (inserts : List (Option String × Literal))
    (entry : Option String × Literal) :
    a.insertAll (inserts ++ [entry]) = (a.insertAll inserts).insert (keyOf entry.1) entry.2 := by
  rw [insertAll, List.foldl_append]
  rfl

/-- A list of keys and values is put in one by one, with no key left out. -/
theorem ofList_eq_insertAll (pairs : List (String × Literal)) :
    ofList pairs = empty.insertAll (pairs.map fun pair => (some pair.1, pair.2)) := by
  rw [ofList, insertAll, List.foldl_map]
  rfl

theorem keysOf_append (inserts later : List (Option String × Literal)) :
    keysOf (inserts ++ later) = keysOf inserts ++ keysOf later := List.map_append

theorem lastUnder?_append_singleton (key : String) (inserts : List (Option String × Literal))
    (entry : Option String × Literal) :
    lastUnder? key (inserts ++ [entry]) =
      if keyOf entry.1 = key then some entry.2 else lastUnder? key inserts := by
  rw [lastUnder?, List.filter_append]
  by_cases h : keyOf entry.1 = key <;> simp [h, lastUnder?]

/-! ## Keys in order -/

/-- The keys are those that are written, each once, in the order in which they are first written. -/
structure FirstsOf (keys written : List String) : Prop where
  nodup : keys.Nodup
  mem_iff : ∀ key, key ∈ keys ↔ key ∈ written
  ordered : keys.Pairwise fun key later => written.idxOf key < written.idxOf later

/-- A key that is written again changes nothing, and a new one comes last. -/
theorem FirstsOf.append {keys written : List String} (h : FirstsOf keys written) (key : String) :
    FirstsOf (if key ∈ keys then keys else keys ++ [key]) (written ++ [key]) := by
  -- what has been written keeps its first place
  have hplace : ∀ k ∈ keys, (written ++ [key]).idxOf k = written.idxOf k := fun k hk =>
    List.idxOf_append_of_mem ((h.mem_iff k).1 hk)
  have hordered : keys.Pairwise fun k l =>
      (written ++ [key]).idxOf k < (written ++ [key]).idxOf l :=
    h.ordered.imp_of_mem fun {k l} hk hl hlt => by rwa [hplace k hk, hplace l hl]
  split
  · next hmem =>
    refine ⟨h.nodup, fun k => ?_, hordered⟩
    rw [List.mem_append, List.mem_singleton, h.mem_iff]
    exact ⟨.inl, fun hk => hk.elim id fun hk => hk ▸ (h.mem_iff key).1 hmem⟩
  · next hmem =>
    have hnew : key ∉ written := fun hwritten => hmem ((h.mem_iff key).2 hwritten)
    refine ⟨?_, fun k => ?_, List.pairwise_append.2 ⟨hordered, List.pairwise_singleton _ _, ?_⟩⟩
    · rw [List.nodup_append]
      refine ⟨h.nodup, List.nodup_singleton key, fun k hk l hl => ?_⟩
      rintro rfl
      exact hmem (List.mem_singleton.1 hl ▸ hk)
    · rw [List.mem_append, List.mem_append, h.mem_iff]
    · intro k hk l hl
      rw [List.mem_singleton.1 hl, hplace k hk, List.idxOf_append_of_notMem hnew]
      have := List.idxOf_lt_length_of_mem ((h.mem_iff k).1 hk)
      omega

/-- A new key comes last, and one that is there keeps its place. -/
theorem keys_insert (a : Arguments) (key : String) (v : Literal) :
    (a.insert key v).entries.map (·.1) =
      if key ∈ a.entries.map (·.1) then a.entries.map (·.1) else a.entries.map (·.1) ++ [key] := by
  split
  · next hmem => exact insertEntry_of_mem hmem
  · next hmem =>
    change (insertEntry key v a.entries).map (·.1) = _
    rw [insertEntry_of_not_mem hmem, List.map_append]
    rfl

theorem firstsOf_insertAll (inserts : List (Option String × Literal)) :
    FirstsOf ((empty.insertAll inserts).entries.map (·.1)) (keysOf inserts) := by
  induction inserts using List.reverseRecOn with
  | nil => exact ⟨List.nodup_nil, fun _ => Iff.rfl, .nil⟩
  | append_singleton inserts entry ih =>
    rw [insertAll_append_singleton, keys_insert, keysOf_append]
    exact ih.append (keyOf entry.1)

/-! ## Literals under keys -/

theorem get?_insertAll (inserts : List (Option String × Literal)) (key : String) :
    (empty.insertAll inserts).get? key = lastUnder? key inserts := by
  induction inserts using List.reverseRecOn with
  | nil => rfl
  | append_singleton inserts entry ih =>
    rw [insertAll_append_singleton, get?_insert, ih, lastUnder?_append_singleton]

/-- Where no key comes twice, an entry is what its key gives. -/
theorem mem_entries_iff {a : Arguments} (h : (a.entries.map (·.1)).Nodup) (key : String)
    (v : Literal) : (key, v) ∈ a.entries ↔ a.get? key = some v := by
  rcases a with ⟨entries⟩
  simp only [get?] at h ⊢
  induction entries with
  | nil => simp
  | cons entry rest ih =>
    obtain ⟨k, w⟩ := entry
    obtain ⟨hk, hrest⟩ := List.nodup_cons.1 h
    rw [List.mem_cons, ih hrest]
    by_cases hkey : k = key
    · subst hkey
      have hnot : rest.find? (fun entry => entry.1 == k) = none := by
        rw [List.find?_eq_none]
        intro entry hentry hbeq
        exact hk (List.mem_map.2 ⟨entry, hentry, beq_iff_eq.1 hbeq⟩)
      simp [hnot, eq_comm]
    · simp [hkey, Ne.symm hkey]

/-! ## The map of a sequence of inserts -/

/-- The arguments are what a sequence of inserts makes of none. -/
structure IsMapOf (a : Arguments) (inserts : List (Option String × Literal)) : Prop where
  /-- The keys are distinct and come in the order of their first insertion. -/
  keys : FirstsOf (a.entries.map (·.1)) (keysOf inserts)
  /-- A key holds the literal of its last insertion. -/
  mem_entries : ∀ key v, (key, v) ∈ a.entries ↔ lastUnder? key inserts = some v
  size_eq : a.size = (keysOf inserts).toFinset.card
  get?_eq : ∀ key, a.get? key = lastUnder? key inserts
  contains_iff : ∀ key, a.contains key = true ↔ key ∈ keysOf inserts
  /-- What has no key and what has the default key for its own share an entry. -/
  shared : ∀ v, (defaultKey, v) ∈ a.entries ↔
    (inserts.filter fun entry => entry.1 = none ∨ entry.1 = some defaultKey).getLast?.map (·.2) =
      some v

theorem isMapOf_insertAll (inserts : List (Option String × Literal)) :
    (empty.insertAll inserts).IsMapOf inserts := by
  have hkeys := firstsOf_insertAll inserts
  have hget := get?_insertAll inserts
  have hentries : ∀ key v, (key, v) ∈ (empty.insertAll inserts).entries ↔
      lastUnder? key inserts = some v := fun key v => by
    rw [mem_entries_iff hkeys.nodup, hget]
  have hdefault : ∀ key : Option String,
      keyOf key = defaultKey ↔ key = none ∨ key = some defaultKey := by
    intro key
    cases key <;> simp [keyOf]
  refine ⟨hkeys, hentries, ?size, hget, fun key => ?contains, fun v => ?shared⟩
  case size =>
    have hset : ((empty.insertAll inserts).entries.map (·.1)).toFinset =
        (keysOf inserts).toFinset := by
      ext key
      rw [List.mem_toFinset, List.mem_toFinset, hkeys.mem_iff]
    rw [← hset, List.toFinset_card_of_nodup hkeys.nodup, List.length_map, size]
  case contains =>
    rw [contains, Option.isSome_iff_exists, ← hkeys.mem_iff, List.mem_map]
    simp only [← mem_entries_iff hkeys.nodup]
    exact ⟨fun ⟨v, hv⟩ => ⟨(key, v), hv, rfl⟩, fun ⟨⟨_, v⟩, hv, hkey⟩ => ⟨v, hkey ▸ hv⟩⟩
  case shared => rw [hentries, lastUnder?, List.filter_congr fun entry _ => decide_eq_decide.2
    (hdefault entry.1)]

end Arguments

/-! ## Arguments of commands -/

namespace Parser

/-- The tokens are arguments one after the other, each a value or a key and its value. -/
inductive ArgumentsRead : List Token → List (Option String × Literal) → Prop where
  | nil : ArgumentsRead [] []
  | plain {u : Token} {v : Literal} {us : List Token} {inserts : List (Option String × Literal)}
    (hk : u.kind = v.kind.token) (htext : u.text = v.text) (h : ArgumentsRead us inserts) :
    ArgumentsRead (u :: us) ((none, v) :: inserts)
  | keyed {word colon u : Token} {v : Literal} {us : List Token}
    {inserts : List (Option String × Literal)} (hword : word.kind = .identifier)
    (hcolon : colon.kind = .colon) (hk : u.kind = v.kind.token) (htext : u.text = v.text)
    (h : ArgumentsRead us inserts) :
    ArgumentsRead (word :: colon :: u :: us) ((some word.text, v) :: inserts)

/-- One more argument in front. -/
theorem ArgumentRead.exists_insert {us vs : List Token} {key : String} {v : Literal}
    {inserts : List (Option String × Literal)} (h : ArgumentRead us key v)
    (hvs : ArgumentsRead vs inserts) :
    ∃ name, Arguments.keyOf name = key ∧ ArgumentsRead (us ++ vs) ((name, v) :: inserts) := by
  cases h with
  | plain hk htext => exact ⟨none, rfl, .plain hk htext hvs⟩
  | @keyed word colon u _ hword hcolon hk htext =>
    exact ⟨some word.text, rfl, .keyed hword hcolon hk htext hvs⟩

/-- The arguments that are read are put in one by one. -/
theorem commandArguments_insertAll {a b : Arguments} {s rest : Stream}
    (h : commandArguments a s = .ok b rest) :
    ∃ us inserts, s = rest.prepend us ∧ ArgumentsRead us inserts ∧ b = a.insertAll inserts := by
  rcases commandArguments_eq_ok h with ⟨rfl, rfl, -⟩ | ⟨us, key, v, mid, -, rfl, hread, -, -, hmore⟩
  · exact ⟨[], [], rfl, .nil, rfl⟩
  · have hlt := hread.length_lt mid
    obtain ⟨vs, inserts, rfl, hvs, rfl⟩ := commandArguments_insertAll hmore
    obtain ⟨name, rfl, hname⟩ := hread.exists_insert hvs
    exact ⟨us ++ vs, (name, v) :: inserts, Stream.prepend_prepend us vs rest, hname, rfl⟩
termination_by s.items.length

end Parser

/-! ## Commands of a script -/

/-- Among the tokens that are left a command of the name stands on the line, with the arguments up to
    the end of its line or of the file. -/
def Stream.HasCommand (s : Stream) (name : String) (line : Nat)
    (inserts : List (Option String × Literal)) : Prop :=
  ∃ (before : List Item) (word : Token) (us : List Token) (stop : Token) (after : List Item),
    s.toList = before ++ (.token word :: us.map Item.token ++ .token stop :: after) ∧
      word.kind = .identifier ∧ word.text = name ∧ word.line = line ∧
      Parser.ArgumentsRead us inserts ∧ (stop.kind = .newline ∨ stop.kind = .endOfFile)

theorem Stream.HasCommand.prepend {s : Stream} {name : String} {line : Nat}
    {inserts : List (Option String × Literal)} (h : s.HasCommand name line inserts)
    (ts : List Token) : (s.prepend ts).HasCommand name line inserts := by
  obtain ⟨before, word, us, stop, after, htokens, hword⟩ := h
  refine ⟨ts.map Item.token ++ before, word, us, stop, after, ?_, hword⟩
  rw [toList_prepend, htokens, List.append_assoc]

namespace Parser

/-- The command that a statement comes down to has the arguments that are put in for it. -/
theorem statement_hasCommand {s rest : Stream} {st : Statement} (h : statement s = .ok st rest)
    {name : String} {a : Arguments} {line : Nat} (hst : st.innermost = .command name a line) :
    ∃ inserts, a = Arguments.empty.insertAll inserts ∧ s.HasCommand name line inserts := by
  cases statement_eq_ok.1 h with
  | dialogue => cases hst
  | @command t a mid hhead hk ha hend =>
    cases hst
    obtain ⟨us, inserts, hus, hread, rfl⟩ := commandArguments_insertAll ha
    obtain ⟨stop, hstop, hends⟩ := terminator_eq_ok.1 hend
    obtain ⟨after, hafter⟩ := mid.exists_toList_eq
    refine ⟨inserts, rfl, [], t, us, stop, after, ?_, hk, rfl, rfl, hread,
      hends.imp And.left And.left⟩
    rw [Stream.eq_prepend_of_head hhead (by simp [hk]), hus, Stream.toList_prepend,
      Stream.toList_prepend, hafter, hstop]
    rfl
  | @conditional t c behind start done last body label hhead hk hc hstart hbody hlast hlabel =>
    obtain ⟨-, rfl⟩ := skipNewlines_eq_ok.1 hstart
    have hlt := Stream.length_tail_of_head hhead (by simp [hk])
    have hlt' := Parsers.advance_whole.tree _ _ c behind hc
    have hle := behind.length_dropNewlines_le
    obtain ⟨inserts, hinserts, hcommand⟩ := statement_hasCommand hbody hst
    obtain ⟨⟨us, hus, -⟩, -⟩ := treeAt_sound hc
    obtain ⟨ns, -, hns, -⟩ := behind.exists_newlines
    refine ⟨inserts, hinserts, ?_⟩
    rw [Stream.eq_prepend_of_head hhead (by simp [hk]), hus, hns]
    exact ((hcommand.prepend ns).prepend us).prepend [t]
termination_by s.items.length

theorem statements_hasCommand {s rest : Stream} {sts : List Statement}
    (h : statements s = .ok sts rest) {st : Statement} (hst : st ∈ sts) {name : String}
    {a : Arguments} {line : Nat} (hcommand : st.innermost = .command name a line) :
    ∃ inserts, a = Arguments.empty.insertAll inserts ∧ s.HasCommand name line inserts := by
  obtain ⟨t, hhead, ⟨hk, htail⟩ | ⟨hk, rfl, rfl⟩ | ⟨-, -, first, mid, more, hfirst, hmore, rfl⟩⟩ :=
    statements_eq_ok.1 h
  · have hlt := Stream.length_tail_of_head hhead (by simp [hk])
    obtain ⟨inserts, hinserts, hhas⟩ := statements_hasCommand htail hst hcommand
    rw [Stream.eq_prepend_of_head hhead (by simp [hk])]
    exact ⟨inserts, hinserts, hhas.prepend [t]⟩
  · cases hst
  · have hlt := Parsers.advance_whole.statement _ first mid hfirst
    rcases List.mem_cons.1 hst with rfl | hst
    · exact statement_hasCommand hfirst hcommand
    · obtain ⟨inserts, hinserts, hhas⟩ := statements_hasCommand hmore hst hcommand
      obtain ⟨us, hus, -⟩ := statement_derives hfirst
      rw [hus]
      exact ⟨inserts, hinserts, hhas.prepend us⟩
termination_by s.items.length

end Parser

/-- **Arguments are a map in the order of insertion**, whether they are put in one by one, come from
    a list, or are read for a command, also for one that stands under guards of a script. -/
theorem Arguments.insertionOrdered :
    (∀ inserts : List (Option String × Literal), (empty.insertAll inserts).IsMapOf inserts) ∧
      (∀ pairs : List (String × Literal),
        (ofList pairs).IsMapOf (pairs.map fun pair => (some pair.1, pair.2))) ∧
      (∀ (s rest : Stream) (a : Arguments), Parser.commandArguments empty s = .ok a rest →
        ∃ us inserts, s = rest.prepend us ∧ Parser.ArgumentsRead us inserts ∧
          a.IsMapOf inserts) ∧
      ∀ (source : String) (p : Program), Program.parse source = .ok p →
        ∀ st ∈ p.statements, ∀ (name : String) (a : Arguments) (line : Nat),
          st.innermost = .command name a line →
          ∃ inserts, (Stream.ofString source).HasCommand name line inserts ∧
            a.IsMapOf inserts := by
  refine ⟨isMapOf_insertAll, fun pairs => ?list, fun s rest a ha => ?command,
    fun source p hp st hst name a line hcommand => ?script⟩
  case list =>
    rw [ofList_eq_insertAll]
    exact isMapOf_insertAll _
  case command =>
    obtain ⟨us, inserts, hus, hread, rfl⟩ := Parser.commandArguments_insertAll ha
    exact ⟨us, inserts, hus, hread, isMapOf_insertAll inserts⟩
  case script =>
    obtain ⟨rest, hrun⟩ := Program.parse_eq_ok.1 hp
    obtain ⟨inserts, rfl, hhas⟩ := Parser.statements_hasCommand hrun hst hcommand
    exact ⟨inserts, hhas, isMapOf_insertAll inserts⟩

/-- A key written twice, and a value without a key before one under the default key. -/
theorem Arguments.insertionOrdered_default :
    ∃ p, Program.parse "※１\n命令 a 鍵：1 default：「b」 鍵：2" = .ok p ∧ ∃ st ∈ p.statements,
      st.innermost = .command "命令" ⟨[("default", .string "「b」"), ("鍵", .number "2")]⟩ 2 ∧
      ∃ inserts, (Stream.ofString "※１\n命令 a 鍵：1 default：「b」 鍵：2").HasCommand "命令" 2 inserts ∧
        IsMapOf ⟨[("default", .string "「b」"), ("鍵", .number "2")]⟩ inserts := by
  have hinnermost : (Program.parse "※１\n命令 a 鍵：1 default：「b」 鍵：2").toOption.map
      (fun p => p.statements.map Statement.innermost) =
        some [.command "命令" ⟨[("default", .string "「b」"), ("鍵", .number "2")]⟩ 2] := by
    decide +kernel
  cases hp : Program.parse "※１\n命令 a 鍵：1 default：「b」 鍵：2" with
  | error e =>
    rw [hp] at hinnermost
    cases hinnermost
  | ok p =>
    rw [hp] at hinnermost
    obtain ⟨st, hstatements, hst⟩ := List.map_eq_singleton_iff.1 (Option.some.inj hinnermost)
    have hmem : st ∈ p.statements := hstatements ▸ List.mem_singleton_self st
    exact ⟨p, rfl, st, hmem, hst, insertionOrdered.2.2.2 _ p hp st hmem _ _ _ hst⟩

end StageScript
