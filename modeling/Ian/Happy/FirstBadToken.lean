import Ian.Happy.Language
import Ian.Happy.Positions

/-!
# Errors are reported at the first bad token

The parser follows the language of documents: what it has taken when it throws
can be completed to a document, and what it does depends on these tokens and on
the next one only. So the token it throws at is the first one that no document
goes on with (`first_bad_token`).
-/

namespace Ian.Happy

open Ian.Lib Run Rule

/-! ## The parser follows the language -/

/-- The lexemes still to be read. -/
def lexemes (t : TokenState) : List Lexeme := t.toks.map Token.lexeme

/-- Two exceptions have the same message and the position of the token that comes
next. -/
def SameError (e : Exception) (t : TokenState) (e' : Exception) (t' : TokenState) : Prop :=
  ∃ message, e = .parse (startOf t.toks) message ∧ e' = .parse (startOf t'.toks) message

abbrev KeepsToAt {α : Type} (t : TokenState) (L : SymbolWords) (m m' : Run TokenState Exception α) :
    Prop :=
  PredictsAt lexemes Lexeme.symbol SameError t L m m'

abbrev KeepsTo {α : Type} (L : SymbolWords) (m m' : Run TokenState Exception α) : Prop :=
  ∀ t, KeepsToAt t L m m'

namespace FirstBadLemmas

open ScanningLemmas DecidingLemmas LanguageLemmas

variable {α β : Type} {t : TokenState} {L : SymbolWords}

/-! ### Looking at a token and taking it -/

/-- The symbol of the next lexeme. -/
def seen (next : Option Lexeme) : Symbol := (next.getD .eof).symbol

theorem head_eq {t t' : TokenState} (h : (lexemes t).head? = (lexemes t').head?) :
    t.head = t'.head := by
  have hhead : ∀ t : TokenState, t.head = (lexemes t).head?.getD .eof := by
    rintro ⟨pos, _ | _⟩ <;> rfl
  rw [hhead, hhead, h]

theorem peek_run (t : TokenState) :
    tokenLexer.peekSymbol.run t = (.ok (seen (lexemes t).head?), t.peek) := by
  obtain ⟨pos, _ | _⟩ := t <;> rfl

theorem peek_follows {f f' : Symbol → Run TokenState Exception α}
    (h : KeepsToAt t.peek L (f (nextSymbol t.toks)) (f' (nextSymbol t.toks))) :
    KeepsToAt t L (tokenLexer.peekSymbol >>= f) (tokenLexer.peekSymbol >>= f') := by
  have hseen : seen (lexemes t).head? = nextSymbol t.toks := by
    obtain ⟨pos, _ | _⟩ := t <;> rfl
  refine PredictsAt.look peek_run (fun _ => rfl) ?_
  rw [hseen]
  exact h

/-- Functions that throw at the next token: any word could follow. -/
theorem throw_follows {m m' : Run TokenState Exception α} (message : String)
    (hm : m.run t = (.throw (.parse (startOf t.toks) message), t.peek))
    (hm' : ∀ t' : TokenState, t'.head = t.head →
      m'.run t' = (.throw (.parse (startOf t'.toks) message), t'.peek)) : KeepsToAt t L m m' := by
  intro o t₁ hrun _
  rw [hm] at hrun
  cases hrun
  obtain ⟨w, hw⟩ := L.inhabited
  refine ⟨[], rfl, .throw hw, fun t' left hview hhead => ?_⟩
  have hsame : t'.head = t.head := head_eq ((congrArg List.head? hview).trans hhead)
  exact ⟨_, t'.peek, hm' t' hsame, hview, .throw ⟨message, rfl, rfl⟩⟩

/-- `unexpected` throws, whatever comes after it. -/
theorem unexpectedIn_follows (context : String) (f f' : β → Run TokenState Exception α) :
    KeepsToAt t L (unexpectedIn tokenLexer.peekSymbol tokenLexer.currentPosition context >>= f)
      (unexpectedIn tokenLexer.peekSymbol tokenLexer.currentPosition context >>= f') := by
  refine throw_follows ("Unexpected symbol " ++ symbolStr t.head.symbol ++ " in " ++ context)
    rfl fun t' hsame => ?_
  rw [← hsame]
  rfl

/-- Taking a token of the expected symbol. -/
theorem take_follows {take : Lexeme → Option α} {expected : Symbol} (hexpected : Terminal expected)
    (htake : ∀ lx a, take lx = some a → lx.symbol = expected) :
    KeepsTo (sym expected hexpected) (tokenTake expected take) (tokenTake expected take) := by
  intro t
  cases hhead : take t.head with
  | some a =>
    obtain ⟨pos, _ | ⟨tok, toks⟩⟩ := t
    · cases htake _ _ hhead
      exact absurd hexpected (show ¬Terminal .eof by decide)
    · intro o t₁ hrun _
      rw [tokenTake_some hhead] at hrun
      cases hrun
      refine ⟨[tok.lexeme], rfl, .ok (congrArg (fun s => [s]) (htake _ _ hhead)),
        fun t' left hview _ => ?_⟩
      · obtain ⟨pos', _ | ⟨tok', toks'⟩⟩ := t'
        · cases hview
        · obtain ⟨hsame, hleft⟩ := List.cons.inj hview
          have hhead' : take tok'.lexeme = some a := hsame ▸ hhead
          exact ⟨_, _, tokenTake_some hhead', hleft, .ok⟩
  | none =>
    by_cases hopen : expected = .string ∧ t.head = .openString
    · intro o t₁ hrun ho
      obtain ⟨rfl, hopen⟩ := hopen
      rw [tokenTake_open hhead hopen] at hrun
      cases hrun
      exact absurd rfl ho
    · refine throw_follows (if expected != .invalid then
        "Unexpected symbol " ++ symbolStr t.head.symbol ++ ", expected " ++ symbolStr expected
        else "Unexpected symbol " ++ symbolStr t.head.symbol)
        (tokenTake_unexpected hhead hopen) fun t' hsame => ?_
      rw [tokenTake_unexpected (hsame ▸ hhead) (hsame ▸ hopen), ← hsame]
      rfl

theorem symbol_follows {symbol : Symbol} (h : (symbolLength symbol).isSome) :
    KeepsTo (sym symbol (Or.inr h)) (tokenLexer.parseSymbol symbol)
      (tokenLexer.parseSymbol symbol) := by
  have hlexer : tokenLexer.parseSymbol symbol = tokenTake symbol (Lexeme.takeFixed symbol) :=
    if_pos h
  rw [hlexer]
  refine take_follows _ fun lx _ htake => ?_
  unfold Lexeme.takeFixed at htake
  split at htake
  · next hlx => rw [hlx, Lexeme.symbol]
  · cases htake

theorem identifier_follows :
    KeepsTo (sym .identifier) tokenLexer.parseIdentifier tokenLexer.parseIdentifier := by
  refine take_follows _ fun lx _ htake => ?_
  cases lx <;> cases htake
  rfl

theorem string_follows :
    KeepsTo (sym .string) tokenLexer.parseString tokenLexer.parseString := by
  refine take_follows _ fun lx _ htake => ?_
  cases lx <;> cases htake
  rfl

theorem integer_follows :
    KeepsTo (sym .integer) tokenLexer.parseInteger tokenLexer.parseInteger := by
  refine take_follows _ fun lx _ htake => ?_
  cases lx <;> cases htake
  rfl

/-! ### Grammar functions -/

theorem qual_follows (fuel : Nat) :
    KeepsTo qualWords (parseQualifiedIdentifier tokenLexer fuel)
      (parseQualifiedIdentifier tokenLexer fuel) := by
  refine fun t => (identifier_follows t).bind fun a a' t => PredictsAt.last ?_
  refine Predicts.loop (fun next next' hagain hdone b b' t => ?_) fuel _ _ t
  rw [parseQualifiedStep, parseQualifiedStep, bind_assoc, bind_assoc]
  refine peek_follows ?_
  split
  · simp only [bind_assoc, pure_bind]
    refine PredictsAt.mono ((symbol_follows rfl _).bind fun _ _ t => ?_)
      (Words.seq_star [sym .namespaceSep, sym .identifier])
    exact (identifier_follows t).bind fun _ _ t => (hagain _ _ t).last
  · exact hdone _ _ _

theorem type_follows (fuel : Nat) :
    KeepsTo typeWords (parseType tokenLexer fuel) (parseType tokenLexer fuel) := by
  refine fun t => (qual_follows fuel t).bind fun a a' t => PredictsAt.last ?_
  refine peek_follows ?_
  dsimp only
  split
  · refine PredictsAt.mono ((symbol_follows rfl _).bind fun _ _ t => ?_) Words.le_option
    refine (integer_follows t).bind fun _ _ t => (symbol_follows rfl t).bind fun _ _ t => ?_
    exact PredictsAt.pure Words.nil_seq _ _
  · exact PredictsAt.pure Words.nil_option _ _

theorem include_follows :
    KeepsTo includeWords (parseInclude tokenLexer) (parseInclude tokenLexer) := by
  refine fun t => PredictsAt.gets fun _ _ => (symbol_follows rfl t).bind fun _ _ t => ?_
  exact (string_follows t).bind fun _ _ t => PredictsAt.pure Words.nil_seq _ _

/-- The loop of a body. -/
theorem fields_follow {fuel : Nat} {item item' : Run TokenState Exception α}
    (hitem : KeepsTo L item item') :
    KeepsTo (.star L) (parseFields tokenLexer fuel item) (parseFields tokenLexer fuel item') := by
  refine Predicts.loop (fun next next' hagain hdone b b' t => ?_) fuel _ _
  rw [parseFieldsStep, parseFieldsStep, bind_assoc, bind_assoc]
  refine peek_follows ?_
  split
  · simp only [bind_assoc, pure_bind]
    exact ((hitem _).bind fun _ _ t => (hagain _ _ t).last).mono (Words.append_seq_star L)
  · exact hdone _ _ _

theorem structField_follows (fuel : Nat) :
    KeepsTo structFieldWords (parseStructField tokenLexer fuel)
      (parseStructField tokenLexer fuel) := by
  refine fun t => PredictsAt.gets fun _ _ => (identifier_follows t).bind fun _ _ t => ?_
  refine (symbol_follows rfl t).bind fun _ _ t => (type_follows fuel t).bind fun _ _ t => ?_
  exact PredictsAt.pure Words.nil_seq _ _

theorem struct_follows (fuel : Nat) :
    KeepsTo structWords (parseStruct tokenLexer fuel) (parseStruct tokenLexer fuel) := by
  refine fun t => PredictsAt.gets fun _ _ => (symbol_follows rfl t).bind fun _ _ t => ?_
  refine (identifier_follows t).bind fun _ _ t => (symbol_follows rfl t).bind fun _ _ t => ?_
  refine (fields_follow (structField_follows fuel) t).bind fun _ _ t => ?_
  exact (symbol_follows rfl t).bind fun _ _ t => PredictsAt.pure Words.nil_seq _ _

theorem mappingField_follows :
    KeepsTo mappingFieldWords (parseMappingField tokenLexer) (parseMappingField tokenLexer) := by
  refine fun t => PredictsAt.gets fun _ _ => (identifier_follows t).bind fun _ _ t => ?_
  refine (symbol_follows rfl t).bind fun _ _ t => (string_follows t).bind fun _ _ t => ?_
  exact PredictsAt.pure Words.nil_seq _ _

theorem mapping_follows (fuel : Nat) :
    KeepsTo mappingWords (parseMapping tokenLexer fuel) (parseMapping tokenLexer fuel) := by
  refine fun t => PredictsAt.gets fun _ _ => (symbol_follows rfl t).bind fun _ _ t => ?_
  refine (identifier_follows t).bind fun _ _ t => (symbol_follows rfl t).bind fun _ _ t => ?_
  refine (qual_follows fuel t).bind fun _ _ t => (symbol_follows rfl t).bind fun _ _ t => ?_
  refine (fields_follow mappingField_follows t).bind fun _ _ t => ?_
  exact (symbol_follows rfl t).bind fun _ _ t => PredictsAt.pure Words.nil_seq _ _

theorem encodingName_follows :
    KeepsTo encodingNameWords (parseEncodingName tokenLexer) (parseEncodingName tokenLexer) := by
  refine fun t => peek_follows ?_
  split
  · refine PredictsAt.mono ((symbol_follows rfl _).bind fun _ _ t => ?_) Words.le_option
    exact (identifier_follows t).last
  · exact PredictsAt.pure Words.nil_option _ _

theorem encodingField_follows :
    KeepsTo encodingFieldWords (parseEncodingField tokenLexer) (parseEncodingField tokenLexer) := by
  refine fun t => PredictsAt.gets fun _ _ => (identifier_follows t).bind fun _ _ t => ?_
  exact (encodingName_follows t).bind fun _ _ t => PredictsAt.pure Words.nil_seq _ _

/-- A node that starts with an identifier is a field. -/
theorem nodeField_follows (fuel depth : Nat) {t : TokenState}
    (h : nextSymbol t.toks = .identifier) :
    KeepsToAt t encodingFieldWords (parseEncodingNode tokenLexer fuel depth)
      (parseEncodingNode tokenLexer fuel depth) := by
  cases depth with
  | zero =>
    intro o t₁ hrun ho
    cases hrun
    exact absurd rfl ho
  | succ depth =>
    refine peek_follows ?_
    rw [h]
    exact encodingField_follows _

theorem deltaBlock_follows (fuel depth : Nat)
    (hnode : KeepsTo nodeWords (parseEncodingNode tokenLexer fuel depth)
      (parseEncodingNode tokenLexer fuel depth)) :
    KeepsTo nodeWords
      (parseEncodingDeltaBlock tokenLexer fuel (parseEncodingNode tokenLexer fuel depth))
      (parseEncodingDeltaBlock tokenLexer fuel (parseEncodingNode tokenLexer fuel depth)) := by
  refine fun t => PredictsAt.gets fun _ _ => PredictsAt.mono ?_ delta_words
  refine (symbol_follows rfl t).bind fun _ _ t => PredictsAt.last (peek_follows ?_)
  split
  · next hnext =>
    refine PredictsAt.mono ((nodeField_follows fuel depth (t := t.peek) hnext).bind fun _ _ t => ?_)
      fun _ hw => Or.inl ((Words.seq_single _).le hw)
    exact PredictsAt.pure Words.nil_seq _ _
  · refine PredictsAt.mono ((symbol_follows rfl _).bind fun _ _ t => ?_) fun _ => Or.inr
    refine (fields_follow hnode t).bind fun _ _ t => (symbol_follows rfl t).bind fun _ _ t => ?_
    exact PredictsAt.pure Words.nil_seq _ _
  · exact unexpectedIn_follows _ pure pure

theorem node_follows (fuel depth : Nat) :
    KeepsTo nodeWords (parseEncodingNode tokenLexer fuel depth)
      (parseEncodingNode tokenLexer fuel depth) := by
  induction depth with
  | zero =>
    intro t o t₁ hrun ho
    cases hrun
    exact absurd rfl ho
  | succ depth ih =>
    refine fun t => peek_follows ?_
    split
    · exact deltaBlock_follows fuel depth ih _
    · exact (encodingField_follows _).mono fun _ => .field
    · exact unexpectedIn_follows _ pure pure

theorem encoding_follows (fuel : Nat) :
    KeepsTo encodingWords (parseEncoding tokenLexer fuel) (parseEncoding tokenLexer fuel) := by
  refine fun t => PredictsAt.gets fun _ _ => (symbol_follows rfl t).bind fun _ _ t => ?_
  refine (identifier_follows t).bind fun _ _ t => (encodingName_follows t).bind fun _ _ t => ?_
  refine (symbol_follows rfl t).bind fun _ _ t => ?_
  refine (fields_follow (node_follows fuel fuel) t).bind fun _ _ t => ?_
  exact (symbol_follows rfl t).bind fun _ _ t => PredictsAt.pure Words.nil_seq _ _

theorem namespace_follows (fuel : Nat) :
    KeepsTo namespaceWords (parseNamespace tokenLexer fuel) (parseNamespace tokenLexer fuel) := by
  refine fun t => peek_follows ?_
  split
  · refine PredictsAt.mono ((symbol_follows rfl _).bind fun _ _ t => ?_) Words.le_option
    exact (qual_follows fuel t).last
  · exact PredictsAt.pure Words.nil_option _ _

theorem includes_follow (fuel : Nat) :
    KeepsTo (.star includeWords) (loop (parseIncludesStep tokenLexer) fuel [])
      (loop (parseIncludesStep tokenLexer) fuel []) := by
  refine Predicts.loop (fun next next' hagain hdone b b' t => ?_) fuel _ _
  rw [parseIncludesStep, parseIncludesStep, bind_assoc, bind_assoc]
  refine peek_follows ?_
  split
  · simp only [bind_assoc, pure_bind]
    exact ((include_follows _).bind fun _ _ t => (hagain _ _ t).last).mono (Words.append_seq_star _)
  · exact hdone _ _ _

/-- A declaration and what comes after it. -/
theorem decl_round {m m' : Run TokenState Exception α} {f f' : α → Run TokenState Exception β}
    (hm : KeepsToAt t L m m') (hL : L.language ≤ declWords.language)
    (hf : ∀ a a', KeepsTo (.star declWords) (f a) (f' a')) :
    KeepsToAt t (.star declWords) (m >>= f) (m' >>= f') :=
  ((hm.mono hL).bind fun a a' t => (hf a a' t).last).mono (Words.append_seq_star _)

theorem decls_follow (fuel : Nat) (root root' : AstRoot) :
    KeepsTo (.star declWords) (loop (parseDeclStep tokenLexer fuel) fuel root)
      (loop (parseDeclStep tokenLexer fuel) fuel root') := by
  refine Predicts.loop (fun next next' hagain hdone b b' t => ?_) fuel _ _
  rw [parseDeclStep, parseDeclStep, bind_assoc, bind_assoc]
  refine peek_follows ?_
  split
  · simp only [bind_assoc, pure_bind]
    exact decl_round (struct_follows fuel _) (fun _ => Or.inl) fun _ _ => hagain _ _
  · simp only [bind_assoc, pure_bind]
    exact decl_round (mapping_follows fuel _) (fun _ hw => Or.inr (Or.inl hw))
      fun _ _ => hagain _ _
  · simp only [bind_assoc, pure_bind]
    exact decl_round (encoding_follows fuel _) (fun _ hw => Or.inr (Or.inr hw))
      fun _ _ => hagain _ _
  · exact hdone _ _ _
  · exact unexpectedIn_follows _ _ _

theorem document_follows (fuel : Nat) :
    KeepsTo documentWords (parseDocument tokenLexer fuel) (parseDocument tokenLexer fuel) := by
  refine fun t => PredictsAt.gets fun _ _ => (includes_follow fuel t).bind fun _ _ t => ?_
  exact (namespace_follows fuel t).bind fun _ _ t => (decls_follow fuel _ _ t).last

end FirstBadLemmas

/-! ## The first bad token -/

/-- The lexemes of the tokens at the places. -/
def lexemesAt (all : List Place) : List Lexeme := all.map fun next => next.token.lexeme

/-- The tokens `before` are the start of an accepted document, and with the token
`next`, which comes after them, they no longer are. -/
structure FirstBad (s filename : List UInt8) (before : List Place) (next : Place) : Prop where
  place : ∃ after, placed 0 ⟨filename, 1, 0⟩ s = before ++ next :: after
  viable : Viable (lexemesAt before)
  not_viable : ¬Viable (lexemesAt (before ++ [next]))

/-- Every stream, however it is read, that starts with the same tokens up to
`next` is given up at this token with the same message. -/
def StopsAlike (before : List Place) (next : Place) (message : String) : Prop :=
  ∀ (ρ : Type) (rd : StreamReader ρ) (r : ρ) (s filename : List UInt8) (before' after' : List Place)
    (next' : Place), Delivers rd r s → placed 0 ⟨filename, 1, 0⟩ s = before' ++ next' :: after' →
    lexemesAt (before' ++ [next']) = lexemesAt (before ++ [next]) →
    Settles (parse rd r filename) (.throw (.parse next'.token.start message))

namespace FirstBadLemmas

open CorrectnessLemmas PlacingLemmas PositionsLemmas LanguageLemmas

variable {n fuel : Nat} {pos : DocumentPosition} {s text filename : List UInt8}
  {before after : List Place} {next : Place} {e : Exception}

theorem lexemesAt_append (all all' : List Place) :
    lexemesAt (all ++ all') = lexemesAt all ++ lexemesAt all' := List.map_append

/-- The lexemes of a stream. -/
theorem lexemes_tokens (filename s : List UInt8) :
    lexemes ⟨⟨filename, 1, 0⟩, tokens filename s⟩ = lexemesAt (placed 0 ⟨filename, 1, 0⟩ s) := by
  rw [lexemes, tokens, ← placed_token 0, List.map_map]
  rfl

/-- Tokens with another one after them are tokens of some document. -/
theorem lex_spellable {before after : List Token} {next : Token}
    (h : lex pos text = before ++ next :: after) : ∀ tok ∈ before, Spellable tok.lexeme := by
  induction before generalizing pos text with
  | nil => exact fun _ h => nomatch h
  | cons tok before ih =>
    obtain ⟨hlexeme, _, _, ⟨_, hnil⟩ | ⟨hlen, hmore⟩⟩ := lex_inv h
    · exact absurd hnil (List.append_ne_nil_of_right_ne_nil _ (List.cons_ne_nil _ _))
    · exact List.forall_mem_cons.mpr ⟨hlexeme ▸ lexeme_spellable hlen, ih hmore.symm⟩

theorem before_spellable (h : placed n pos text = before ++ next :: after) :
    ∀ lx ∈ lexemesAt before, Spellable lx := by
  have hlex := placed_token n pos text
  rw [h, List.map_append, List.map_cons] at hlex
  intro lx hlx
  obtain ⟨place, hplace, rfl⟩ := List.mem_map.mp hlx
  exact lex_spellable hlex.symm _ (List.mem_map_of_mem hplace)

/-- A parser that throws leaves the same state, however much fuel it has. -/
theorem throw_unique {fuel' : Nat} {e' : Exception} {t t₁ t₂ : TokenState}
    (h : (parseDocument tokenLexer fuel).run t = (.throw e, t₁))
    (h' : (parseDocument tokenLexer fuel').run t = (.throw e', t₂)) : e = e' ∧ t₁ = t₂ := by
  have hmost := parseDocument_extends tokenLexer fuel (max fuel fuel') (Nat.le_max_left _ _) t
    (by rw [h]; nofun)
  have hmost' := parseDocument_extends tokenLexer fuel' (max fuel fuel') (Nat.le_max_right _ _) t
    (by rw [h']; nofun)
  rw [h] at hmost
  rw [h', hmost] at hmost'
  cases hmost'
  exact ⟨rfl, rfl⟩

/-- The place where a parser stops, told by the tokens it has left. -/
theorem stops_place {ρ : Type} {rd : StreamReader ρ} {r : ρ} {t : TokenState}
    (h : Delivers rd r s)
    (hrun : (parseDocument tokenLexer fuel).run ⟨⟨filename, 1, 0⟩, tokens filename s⟩ =
      (.throw e, t))
    (hplaced : placed 0 ⟨filename, 1, 0⟩ s = before ++ next :: after)
    (hleft : lexemes t = lexemesAt (next :: after)) :
    StopsAt rd r s filename e next ∧ startOf t.toks = next.token.start := by
  have hsettles := (parse_settles_iff h filename).mpr
    (Settles.of_extends (parseDocument_extends tokenLexer) fuel (by rw [hrun]; nofun))
  rw [hrun] at hsettles
  obtain ⟨found, rest, fuel', t', ⟨skipped, hskipped⟩, hstops, _, hrun', htoks⟩ :=
    throw_stops h hsettles
  obtain ⟨_, rfl⟩ := throw_unique hrun hrun'
  have hlength : (found :: rest).length = (next :: after).length := by
    have hlexemes := congrArg List.length hleft
    rw [lexemes, htoks] at hlexemes
    simpa [lexemesAt] using hlexemes
  obtain ⟨_, hsame⟩ := List.append_inj' (hskipped.trans hplaced) hlength
  cases hsame
  rw [htoks]
  exact ⟨hstops, rfl⟩

/-- Lexemes that are the start of a stream end at one of its places. -/
theorem prefix_placed (h : lexemesAt (before ++ [next]) <+: (tokens filename s).map Token.lexeme) :
    ∃ before' next' after', placed 0 ⟨filename, 1, 0⟩ s = before' ++ next' :: after' ∧
      lexemesAt (before' ++ [next']) = lexemesAt (before ++ [next]) := by
  obtain ⟨more, hmore⟩ := h
  have hall : lexemesAt (placed 0 ⟨filename, 1, 0⟩ s) = lexemesAt (before ++ [next]) ++ more :=
    (lexemes_tokens filename s).symm.trans hmore.symm
  obtain ⟨upTo, after', hplaced, hsame, _⟩ := List.map_eq_append_iff.mp hall
  obtain ⟨before', last, rfl, _, hlast⟩ :=
    List.map_eq_append_iff.mp (hsame.trans (lexemesAt_append before [next]))
  obtain ⟨next', rfl, _⟩ := List.map_eq_singleton_iff.mp hlast
  exact ⟨before', next', after', hplaced.trans (List.append_assoc _ _ _), hsame⟩

end FirstBadLemmas

open FirstBadLemmas LanguageLemmas

/-- Errors are reported at the first bad token: what comes before it is the start
of an accepted document, with it there is none, and nothing after it matters. -/
theorem first_bad_token {ρ : Type} (rd : StreamReader ρ) (r : ρ) (s filename : List UInt8)
    (e : Exception) (h : Delivers rd r s) (he : Settles (parse rd r filename) (.throw e)) :
    ∃ before next message, FirstBad s filename before next ∧ StopsAt rd r s filename e next ∧
      e = .parse next.token.start message ∧ StopsAlike before next message := by
  obtain ⟨next, after, fuel, t, ⟨before, hplaced⟩, hstops, _, hrun, htoks⟩ :=
    PositionsLemmas.throw_stops h he
  obtain ⟨w, hview, hw, hlike⟩ := document_follows fuel _ _ t hrun nofun
  have hleft : lexemes t = lexemesAt (next :: after) := by
    rw [lexemes, htoks, List.map_map]
    rfl
  -- What has been taken is what comes before the token.
  obtain rfl : w = lexemesAt before := by
    rw [lexemes_tokens, ← hplaced, lexemesAt_append, hleft] at hview
    exact List.append_cancel_right hview.symm
  obtain ⟨tail, rfl⟩ := hstops.text
  have halike : StopsAlike before next (unexpectedText next.token.lexeme.symbol tail) := by
    intro ρ' rd' r' s' filename' before' after' next' h' hplaced' hsame
    rw [lexemesAt_append, lexemesAt_append] at hsame
    obtain ⟨hbefore, hnext⟩ := List.append_inj' hsame rfl
    obtain ⟨o, t', hrun', hleft', hsameError⟩ := hlike ⟨⟨filename', 1, 0⟩, tokens filename' s'⟩
      (lexemesAt (next' :: after'))
      (by rw [lexemes_tokens, hplaced', lexemesAt_append, hbefore])
      (by rw [hleft]; exact congrArg some (List.singleton_inj.mp hnext))
    cases hsameError with
    | throw hmessage =>
      obtain ⟨message, hmessage, rfl⟩ := hmessage
      obtain ⟨_, rfl⟩ := Exception.parse.inj hmessage
      have hstart := (stops_place h' hrun' hplaced' hleft').2
      have hsettles := (CorrectnessLemmas.parse_settles_iff h' filename').mpr
        (Settles.of_extends (parseDocument_extends tokenLexer) fuel (by rw [hrun']; nofun))
      rw [hrun', hstart] at hsettles
      exact hsettles
  refine ⟨before, next, _, ⟨⟨after, hplaced.symm⟩, ?_, ?_⟩, hstops, rfl, halike⟩
  · cases hw with
    | throw hword => exact viable_of_word (before_spellable hplaced.symm) hword
  · -- A document that goes on with the token is given up there, so it is not accepted.
    rintro ⟨ρ', rd', r', s', filename', t', h', ht', hprefix⟩
    obtain ⟨before', next', after', hplaced', hsame⟩ := prefix_placed hprefix
    have hthrow := halike ρ' rd' r' s' filename' before' after' next' h' hplaced' hsame
    exact nomatch ht'.unique hthrow

/-- `STRUCT {`: a structure without a name. -/
def namelessStruct : List UInt8 := structKeyword ++ [spaceByte, curlyOpenMark]

theorem first_bad_token_nameless :
    ∃ before next message, FirstBad namelessStruct [] before next ∧
      StopsAt stdinReader namelessStruct namelessStruct []
        (.parse ⟨[], 1, 7⟩ "Unexpected symbol curly_open, expected identifier") next ∧
      Exception.parse ⟨[], 1, 7⟩ "Unexpected symbol curly_open, expected identifier" =
        .parse next.token.start message ∧
      StopsAlike before next message := by
  have htokens : tokens [] namelessStruct =
      [⟨.fixed .structKw, ⟨[], 1, 0⟩, ⟨[], 1, 6⟩⟩, ⟨.fixed .curlyOpen, ⟨[], 1, 7⟩, ⟨[], 1, 8⟩⟩,
        ⟨.eof, ⟨[], 1, 8⟩, ⟨[], 1, 8⟩⟩] := by decide
  have hrun : ((parseDocument tokenLexer 2).run ⟨⟨[], 1, 0⟩, tokens [] namelessStruct⟩).1 =
      .throw (.parse ⟨[], 1, 7⟩ "Unexpected symbol curly_open, expected identifier") := by
    rw [htokens]
    rfl
  have hthrow := (CorrectnessLemmas.parse_settles_iff (stdinReader_delivers namelessStruct) []).mpr
    (Settles.of_extends (parseDocument_extends tokenLexer) 2 (by rw [hrun]; nofun))
  rw [hrun] at hthrow
  exact first_bad_token stdinReader namelessStruct namelessStruct [] _ (stdinReader_delivers _)
    hthrow

end Ian.Happy
