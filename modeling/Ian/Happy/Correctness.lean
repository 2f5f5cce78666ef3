import Ian.Happy.Deciding
import Ian.Happy.Fuel

/-!
# What `Parser::parse` computes

The three layers put together: buffer against memory, lexical functions against
the token sequence, grammar functions against the grammar.

* `parse_chunking`: how the reader cuts the stream is invisible, and the buffer
  is sound in every state.
* `parse_ok_iff_derives`: the parser returns the trees the grammar derives.
* `parse_finishes_iff`: the parser finishes unless the grammar calls for a
  string where a literal starts that is never closed.
-/

namespace Ian.Happy

open Ian.Lib Run

/-- `StdinReader`, over the bytes of the input not read yet. -/
def stdinReader : StreamReader (List UInt8) where
  read input length := (input.take length, input.drop length)

theorem stdinReader_delivers (s : List UInt8) : Delivers stdinReader s s := by
  refine ⟨fun r s => r = s, rfl, ?_⟩
  rintro r s rfl length hlength
  refine ⟨List.length_take_le _ _, fun h => ?_, r.drop length, ?_, rfl⟩
  · rcases List.take_eq_nil_iff.mp h with h | h
    · omega
    · exact h
  · exact (List.take_append_drop length r).symm

/-- A reader that hands out one byte at a time. -/
def byteReader : StreamReader (List UInt8) where
  read input length := (input.take (min length 1), input.drop (min length 1))

namespace CorrectnessLemmas

theorem byteReader_delivers (s : List UInt8) : Delivers byteReader s s := by
  refine ⟨fun r s => r = s, rfl, ?_⟩
  rintro r s rfl length hlength
  refine ⟨(List.length_take_le _ _).trans (Nat.min_le_left _ _), fun h => ?_,
    r.drop (min length 1), ?_, rfl⟩
  · rcases List.take_eq_nil_iff.mp h with h | h
    · omega
    · exact h
  · exact (List.take_append_drop _ r).symm

theorem lexUpTo_length (n : Nat) (pos : DocumentPosition) (text : List UInt8) :
    (lexUpTo n pos text).length ≤ n := by
  induction n generalizing pos text with
  | zero => exact Nat.le_refl 0
  | succ n ih =>
    unfold lexUpTo
    dsimp only
    split
    · exact Nat.succ_le_succ (Nat.zero_le n)
    · exact Nat.succ_le_succ (ih _ _)

theorem tokens_length (filename s : List UInt8) : (tokens filename s).length ≤ s.length + 1 :=
  lexUpTo_length _ _ _

/-- The parser over the stream in memory and over its token sequence end alike,
the cursor inside the stream. -/
theorem parseMemory_tokens (s filename : List UInt8) {fuel : Nat} (hfuel : s.length < fuel) :
    parseMemory s filename fuel =
      ((parseDocument tokenLexer fuel).run ⟨⟨filename, 1, 0⟩, tokens filename s⟩).1 ∧
    (parseFrom memorySource ⟨s, 0⟩ filename fuel).2.source.cursor ≤ s.length := by
  obtain ⟨ho, hrel⟩ := parseDocument_sim (scanner_token_sim hfuel) fuel _ _
    (tokenRel_init filename s)
  exact ⟨ho, hrel.inside⟩

variable {ρ : Type} {rd : StreamReader ρ} {r : ρ} {s : List UInt8}

theorem parse_tokens (h : Delivers rd r s) (filename : List UInt8) {fuel : Nat}
    (hfuel : s.length < fuel) :
    parse rd r filename fuel =
      ((parseDocument tokenLexer fuel).run ⟨⟨filename, 1, 0⟩, tokens filename s⟩).1 :=
  (parseFrom_memory h filename hfuel).1.trans (parseMemory_tokens s filename hfuel).1

theorem parse_settles_iff (h : Delivers rd r s) (filename : List UInt8)
    {o : Outcome Exception AstRoot} :
    Settles (parse rd r filename) o ↔
      Settles (fun fuel =>
        ((parseDocument tokenLexer fuel).run ⟨⟨filename, 1, 0⟩, tokens filename s⟩).1) o :=
  Settles.congr (s.length + 1) fun _ hfuel => parse_tokens h filename hfuel

/-- With enough fuel the parser over the token sequence decides the grammar. -/
theorem tokens_answer (filename s : List UInt8) {fuel : Nat} (hfuel : s.length + 2 ≤ fuel) :
    Answer TokenState.toks IsParse (fun _ => True) (documentRule filename) Hangs
      (tokens filename s)
      ((parseDocument tokenLexer fuel).run ⟨⟨filename, 1, 0⟩, tokens filename s⟩) := by
  have hlen := tokens_length filename s
  exact parseDocument_decides filename (Nat.le_refl fuel) ⟨⟨filename, 1, 0⟩, tokens filename s⟩ rfl
    (by show (tokens filename s).length < fuel; omega)

/-- Where the parser over the token sequence ends up, and what the grammar says
there. -/
theorem tokens_settle (filename s : List UInt8) :
    let run := fun fuel =>
      ((parseDocument tokenLexer fuel).run ⟨⟨filename, 1, 0⟩, tokens filename s⟩).1
    (∃ t, Settles run (.ok t) ∧ Derives filename (tokens filename s) t ∧
      (∀ t', Derives filename (tokens filename s) t' → t' = t) ∧ ¬Hangs (tokens filename s)) ∨
    (∃ e, Settles run (.throw e) ∧ IsParse e ∧ (¬∃ t, Derives filename (tokens filename s) t) ∧
      ¬Hangs (tokens filename s)) ∨
    (Settles run .outOfFuel ∧ (¬∃ t, Derives filename (tokens filename s) t) ∧
      Hangs (tokens filename s)) := by
  intro run
  have hans := tokens_answer filename s (Nat.le_refl _)
  have hsettles := Settles.of_extends (s := ⟨⟨filename, 1, 0⟩, tokens filename s⟩)
    (parseDocument_extends tokenLexer) (s.length + 2)
  obtain ⟨o, t', hrun⟩ : ∃ o t', (parseDocument tokenLexer (s.length + 2)).run
      ⟨⟨filename, 1, 0⟩, tokens filename s⟩ = (o, t') := ⟨_, _, rfl⟩
  rw [hrun] at hans hsettles
  cases hans with
  | @ok t _ hg huniq hno =>
    refine Or.inl ⟨t, hsettles nofun, ⟨_, hg⟩, ?_, hno⟩
    rintro t' ⟨rest, ht'⟩
    exact (huniq t' rest ht' trivial).1
  | @throw e _ he hnone hno =>
    refine Or.inr (Or.inl ⟨e, hsettles nofun, he, ?_, hno⟩)
    rintro ⟨t, rest, ht⟩
    exact hnone t rest ht trivial
  | outOfFuel hang hnone =>
    refine Or.inr (Or.inr ⟨⟨s.length + 2, fun fuel hfuel => ?_⟩, ?_, hang⟩)
    · have hans' := tokens_answer filename s hfuel
      show ((parseDocument tokenLexer fuel).run _).1 = _
      generalize (parseDocument tokenLexer fuel).run
        ⟨⟨filename, 1, 0⟩, tokens filename s⟩ = result at hans'
      cases hans' with
      | ok _ _ hno => exact absurd hang hno
      | throw _ _ hno => exact absurd hang hno
      | outOfFuel _ _ => rfl
    · rintro ⟨t, rest, ht⟩
      exact hnone t rest ht trivial

theorem settles_iff_derives (h : Delivers rd r s) (filename : List UInt8) (t : AstRoot) :
    Settles (parse rd r filename) (.ok t) ↔ Derives filename (tokens filename s) t := by
  rw [parse_settles_iff h filename]
  rcases tokens_settle filename s with ⟨t', hset, hder, huniq, _⟩ | ⟨e, hset, _, hnone, _⟩ |
    ⟨hset, hnone, _⟩
  · constructor
    · intro ht
      cases ht.unique hset
      exact hder
    · intro ht
      rw [huniq t ht]
      exact hset
  · exact ⟨fun ht => (nomatch ht.unique hset), fun ht => absurd ⟨t, ht⟩ hnone⟩
  · exact ⟨fun ht => (nomatch ht.unique hset), fun ht => absurd ⟨t, ht⟩ hnone⟩

end CorrectnessLemmas

open CorrectnessLemmas

/-! ## The buffer is invisible -/

/-- However the reader cuts the stream, the parser does what it does over the
stream held whole, and so do any two readers of one stream; and every buffer
state it passes through is sound. -/
theorem parse_chunking {ρ : Type} (rd : StreamReader ρ) (r : ρ) (s filename : List UInt8)
    (h : Delivers rd r s) :
    (∀ fuel, s.length < fuel → parse rd r filename fuel = parseMemory s filename fuel) ∧
    (∀ o, Settles (parse rd r filename) o ↔ Settles (parseMemory s filename) o) ∧
    (∀ (ρ' : Type) (rd' : StreamReader ρ') (r' : ρ'), Delivers rd' r' s →
      ∀ o, Settles (parse rd r filename) o ↔ Settles (parse rd' r' filename) o) ∧
    ∀ fuel, s.length < fuel → ∀ v ∈ parseStates rd r filename fuel, Sound s v := by
  have hmem : ∀ {ρ : Type} {rd : StreamReader ρ} {r : ρ}, Delivers rd r s →
      ∀ fuel, s.length < fuel → parse rd r filename fuel = parseMemory s filename fuel :=
    fun h fuel hfuel => (parseFrom_memory h filename hfuel).1
  refine ⟨hmem h, fun o => Settles.congr (s.length + 1) (hmem h), fun ρ' rd' r' h' o => ?_, ?_⟩
  · refine Settles.congr (s.length + 1) fun fuel hfuel => ?_
    rw [hmem h fuel hfuel, hmem h' fuel hfuel]
  · intro fuel hfuel v hv
    obtain ⟨_, hrel⟩ := parseFrom_memory h filename hfuel
    exact hrel.sound (parseMemory_tokens s filename hfuel).2 v hv

theorem parse_chunking_bytes :
    Delivers byteReader (bytes ['S', 'T']) (bytes ['S', 'T']) ∧
    ∀ o, Settles (parse byteReader (bytes ['S', 'T']) []) o ↔
      Settles (parse stdinReader (bytes ['S', 'T']) []) o :=
  ⟨byteReader_delivers _, (parse_chunking byteReader (bytes ['S', 'T']) _ []
    (byteReader_delivers _)).2.2.1 _ stdinReader _ (stdinReader_delivers _)⟩

/-! ## The language -/

/-- The parser returns the tree `t` exactly when the token sequence of the
stream derives `t`. When it derives none, and every string literal in it is
closed, the parser throws a `ParseException`. -/
theorem parse_ok_iff_derives {ρ : Type} (rd : StreamReader ρ) (r : ρ) (s filename : List UInt8)
    (h : Delivers rd r s) :
    (∀ t, Settles (parse rd r filename) (.ok t) ↔ Derives filename (tokens filename s) t) ∧
    ((∀ tok ∈ tokens filename s, tok.lexeme ≠ .openString) →
      (¬∃ t, Derives filename (tokens filename s) t) →
      ∃ position message, Settles (parse rd r filename) (.throw (.parse position message))) := by
  refine ⟨settles_iff_derives h filename, fun hclosed hnone => ?_⟩
  rcases tokens_settle filename s with ⟨t, _, hder, _⟩ | ⟨e, hset, ⟨position, message, rfl⟩, _⟩ |
    ⟨_, _, hang⟩
  · exact absurd ⟨t, hder⟩ hnone
  · exact ⟨position, message, (parse_settles_iff h filename).mpr hset⟩
  · obtain ⟨tok, hmem, hopen⟩ := DecidingLemmas.openString_mem hang
    exact absurd hopen (hclosed tok hmem)

/-- `INCLUDE "a"`. -/
def includeExample : List UInt8 :=
  includeKeyword ++ [spaceByte, doubleQuote, Char.toUInt8 'a', doubleQuote]

theorem parse_ok_iff_derives_include :
    Settles (parse stdinReader includeExample [])
      (.ok { origin := ⟨[], 1, 0⟩, includes := [⟨⟨[], 1, 0⟩, [Char.toUInt8 'a']⟩],
             space := ⟨[], []⟩, structDecls := [], mapDecls := [], encoDecls := [] }) := by
  have htokens : tokens [] includeExample =
      [⟨.fixed .includeKw, ⟨[], 1, 0⟩, ⟨[], 1, 7⟩⟩,
        ⟨.string [Char.toUInt8 'a'], ⟨[], 1, 8⟩, ⟨[], 1, 11⟩⟩,
        ⟨.eof, ⟨[], 1, 11⟩, ⟨[], 1, 11⟩⟩] := by decide
  refine ((parse_ok_iff_derives stdinReader includeExample includeExample []
    (stdinReader_delivers _)).1 _).mpr ?_
  rw [htokens]
  refine ⟨_, [_], _, .cons ⟨_, _, ⟨rfl, rfl⟩, (), _, ⟨_, rfl, rfl⟩, _, _, ⟨_, rfl, rfl⟩, rfl, rfl⟩
    (.nil _), _, _, Or.inr ⟨rfl, rfl⟩, [], _, .nil _, (), _, ⟨rfl, rfl⟩, rfl, rfl⟩

/-! ## Termination -/

/-- The parser ends: it returns a tree or throws a `ParseException`. -/
def Ends : Outcome Exception AstRoot → Prop
  | .ok _ => True
  | .throw e => IsParse e
  | .outOfFuel => False

theorem not_ends_of_hangs {ρ : Type} {rd : StreamReader ρ} {r : ρ} {s filename : List UInt8}
    (h : Delivers rd r s) (hang : Hangs (tokens filename s)) :
    ¬∃ o, Ends o ∧ Settles (parse rd r filename) o := by
  rintro ⟨o, hends, ho⟩
  rw [parse_settles_iff h filename] at ho
  rcases tokens_settle filename s with ⟨_, _, _, _, hno⟩ | ⟨_, _, _, _, hno⟩ | ⟨hset, _, _⟩
  · exact hno hang
  · exact hno hang
  · cases ho.unique hset
    exact hends

/-- The parser finishes exactly when there is no literal that is never closed
at a place where the grammar calls for a string. -/
theorem parse_finishes_iff {ρ : Type} (rd : StreamReader ρ) (r : ρ) (s filename : List UInt8)
    (h : Delivers rd r s) :
    (∃ o, Ends o ∧ Settles (parse rd r filename) o) ↔ ¬Hangs (tokens filename s) := by
  constructor
  · exact fun hends hang => not_ends_of_hangs h hang hends
  · intro hno
    have hiff := fun o => parse_settles_iff h filename (o := o)
    rcases tokens_settle filename s with ⟨t, hset, _⟩ | ⟨e, hset, he, _⟩ | ⟨_, _, hang⟩
    · exact ⟨.ok t, trivial, (hiff _).mpr hset⟩
    · exact ⟨.throw e, he, (hiff _).mpr hset⟩
    · exact absurd hang hno

/-- `INCLUDE "a" INCLUDE`: a file that ends where a string is called for. -/
def cutInclude : List UInt8 := includeExample ++ [spaceByte] ++ includeKeyword

/-- A file that ends inside an include, where no literal has begun. -/
theorem parse_finishes_iff_cut :
    ∃ o, Ends o ∧ Settles (parse stdinReader cutInclude []) o := by
  refine (parse_finishes_iff stdinReader cutInclude cutInclude [] (stdinReader_delivers _)).mpr
    fun hang => ?_
  have hclosed : ∀ tok ∈ tokens [] cutInclude, tok.lexeme ≠ .openString := by decide
  obtain ⟨tok, hmem, hopen⟩ := DecidingLemmas.openString_mem hang
  exact hclosed tok hmem hopen

/-- `INCLUDE '`: a file that ends inside a string literal. -/
def openInclude : List UInt8 := includeKeyword ++ [spaceByte, singleQuote]

/-- On a file that ends inside the string of an include the parser neither
returns nor throws. -/
theorem parse_openInclude_never_ends :
    Delivers stdinReader openInclude openInclude ∧
      ¬∃ o, Ends o ∧ Settles (parse stdinReader openInclude []) o := by
  have htokens : tokens [] openInclude =
      [⟨.fixed .includeKw, ⟨[], 1, 0⟩, ⟨[], 1, 7⟩⟩, ⟨.openString, ⟨[], 1, 8⟩, ⟨[], 1, 8⟩⟩] := by
    decide
  have hang : Hangs (tokens [] openInclude) := by
    rw [htokens]
    exact ⟨_, Or.inl ⟨[], _, .nil _, ⟨_, rfl, rfl⟩⟩, rfl⟩
  exact ⟨stdinReader_delivers _, not_ends_of_hangs (stdinReader_delivers _) hang⟩

end Ian.Happy
