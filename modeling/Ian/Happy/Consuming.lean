import Ian.Happy.Fragments

/-!
# What the parser looks at and what it takes

`peek_symbol` classifies a token and the functions that take it scan it again,
linked only by the cached symbol. Over a reader, in every state that calls of
the member functions lead to:

* the cached symbol is what `peek_symbol` would answer again, with the cursor on
  the first byte of that token (`CacheExact`);
* a function that takes a token takes the whole of it (`WholeLexeme`) and
  nothing else (`Consumes`).

`string_read_back` is about the strings that literals can denote.
-/

namespace Ian.Happy

open Ian.Lib Run

/-! ## The lexemes, byte by byte -/

/-- What stands between the quotes of a literal, and the string it denotes. -/
inductive Quoted (delim : UInt8) : List UInt8 → AstString → Prop where
  | nil : Quoted delim [] []
  | plain {c : UInt8} {body value : List UInt8} (hdelim : c ≠ delim) (hslash : c ≠ backslash)
    (h : Quoted delim body value) : Quoted delim (c :: body) (c :: value)
  | escaped {c : UInt8} {body value : List UInt8} (h : Quoted delim body value) :
    Quoted delim (backslash :: c :: body) (unescape c :: value)

/-- `word` is a lexeme of the symbol, and what comes after it does not extend
it. -/
inductive WholeLexeme : Symbol → List UInt8 → List UInt8 → Prop where
  | sign {c : UInt8} {rest : List UInt8} {symbol : Symbol} (h : signSymbol c = some symbol) :
    WholeLexeme symbol [c] rest
  | word {c : UInt8} {cs rest : List UInt8} (hfirst : isLetter c = true)
    (hrun : ∀ b ∈ cs, isWordByte b = true) (hnext : ∀ b ∈ rest.head?, isWordByte b = false) :
    WholeLexeme (wordSymbol (c :: cs)) (c :: cs) rest
  | integer {c : UInt8} {cs rest : List UInt8}
    (hfirst : isDigit c = true ∨ c = minusSign ∨ c = plusSign)
    (hrun : ∀ b ∈ cs, isDigit b = true)
    (hnext : ∀ b ∈ rest.head?, isDigit b = false ∧ b ≠ namespaceSepMark) :
    WholeLexeme .integer (c :: cs) rest
  | string {delim : UInt8} {body rest : List UInt8} {value : AstString}
    (hquote : delim = singleQuote ∨ delim = doubleQuote) (hbody : Quoted delim body value) :
    WholeLexeme .string (delim :: body ++ [delim]) rest

/-- The literal is closed somewhere in the text after its opening quote. -/
def Closed (delim : UInt8) (text : List UInt8) : Prop :=
  ∃ body value rest, text = body ++ delim :: rest ∧ Quoted delim body value

/-! ## Calls -/

/-- A call of one of the member functions the grammar functions are made of. -/
inductive Call where
  | peekSymbol
  | parseSymbol (symbol : Symbol)
  | parseIdentifier
  | parseString
  | parseInteger
  | peekAt (offset : Nat)
  | skipWhitespace
  | trimOpportunity
deriving DecidableEq, Repr

/-- A run for its effect only. -/
def forget {σ α : Type} (m : ParserM σ α) : ParserM σ Unit := do
  let _ ← m
  pure ()

def Call.on {σ : Type} (src : Source σ) (fuel : Nat) : Call → ParserM σ Unit
  | .peekSymbol => forget (Happy.peekSymbol src fuel)
  | .parseSymbol symbol => Happy.parseSymbol src fuel symbol
  | .parseIdentifier => forget (Happy.parseIdentifier src fuel)
  | .parseString => forget (Happy.parseString src fuel)
  | .parseInteger => forget (Happy.parseInteger src fuel)
  | .peekAt offset => forget (Happy.peekAt src offset)
  | .skipWhitespace => Happy.skipWhitespace src fuel
  | .trimOpportunity => Happy.trimOpportunity src

/-- The kind of token a call takes. -/
def Call.takes : Call → Option Symbol
  | .parseSymbol symbol => some symbol
  | .parseIdentifier => some .identifier
  | .parseString => some .string
  | .parseInteger => some .integer
  | .peekSymbol | .peekAt _ | .skipWhitespace | .trimOpportunity => none

variable {ρ : Type}

/-- The states of a parser between calls, whatever their order and outcome. -/
inductive Reachable (rd : StreamReader ρ) (fuel : Nat) (filename : List UInt8) (r : ρ) :
    Parser (Buffer ρ) → Prop where
  | init : Reachable rd fuel filename r (Parser.init filename (Buffer.init r))
  | call {p : Parser (Buffer ρ)} (c : Call) (h : Reachable rd fuel filename r p) :
    Reachable rd fuel filename r ((c.on (bufferSource rd fuel) fuel).run p).2

/-- No symbol is cached, or it is what `peek_symbol` would answer without it, and
the cursor is on the first byte of the token: `peek_symbol` would leave the
cursor and the position as they are. -/
def CacheExact (rd : StreamReader ρ) (fuel : Nat) (p : Parser (Buffer ρ)) : Prop :=
  p.nextSymbol = .invalid ∨ ∃ text p',
    (peekSymbol (bufferSource rd fuel) fuel).run { p with nextSymbol := .invalid } =
      (.ok p.nextSymbol, p') ∧
    Holds rd p.source text ∧ Holds rd p'.source text ∧ p'.pos = p.pos ∧
      isBlank (text.getD 0 nul) = false

/-- A call that takes a token of the kind `symbol` and ends without an exception
takes the whole of the token that `peek_symbol` sees, and nothing else; only a
string literal that is never closed is read for ever. -/
inductive Consumes (rd : StreamReader ρ) (fuel : Nat) (symbol : Symbol) (p : Parser (Buffer ρ)) :
    Outcome Exception Unit × Parser (Buffer ρ) → Prop where
  | took {q p' : Parser (Buffer ρ)} {word rest : List UInt8}
    (hpeek : (peekSymbol (bufferSource rd fuel) fuel).run p = (.ok symbol, q))
    (hword : Holds rd q.source (word ++ rest)) (hsome : 0 < word.length)
    (hwhole : WholeLexeme symbol word rest) (hrest : Holds rd p'.source rest)
    (hinvalid : p'.nextSymbol = .invalid) : Consumes rd fuel symbol p (.ok (), p')
  | threw {e : Exception} {p' : Parser (Buffer ρ)} : Consumes rd fuel symbol p (.throw e, p')
  | hangs {q p' : Parser (Buffer ρ)} {delim : UInt8} {text : List UInt8}
    (hstring : symbol = .string)
    (hpeek : (peekSymbol (bufferSource rd fuel) fuel).run p = (.ok symbol, q))
    (htext : Holds rd q.source (delim :: text))
    (hquote : delim = singleQuote ∨ delim = doubleQuote) (hopen : ¬Closed delim text) :
    Consumes rd fuel symbol p (.outOfFuel, p')

namespace ConsumingLemmas

open LexingLemmas ScanningLemmas SimulationLemmas BufferLemmas PlacingLemmas FragmentLemmas

/-! ## The lexemes -/

/-- What `stringRest` reads is a quoted body; the flag stands for a backslash in
front of it. -/
theorem quoted_of_stringRest {delim : UInt8} {escaped : Bool} {text value : List UInt8} {n : Nat}
    (h : stringRest delim escaped text = some (value, n)) :
    ∃ body rest, text = body ++ delim :: rest ∧ n = body.length + 1 ∧
      Quoted delim (if escaped then backslash :: body else body) value := by
  induction text generalizing escaped value n with
  | nil => cases h
  | cons c cs ih =>
    cases escaped with
    | true =>
      obtain ⟨⟨value', n'⟩, hrest, hvn⟩ := Option.map_eq_some_iff.mp h
      cases hvn
      obtain ⟨body, rest, rfl, rfl, hbody⟩ := ih hrest
      exact ⟨c :: body, rest, rfl, rfl, .escaped hbody⟩
    | false =>
      unfold stringRest at h
      split at h
      next hc =>
        cases h
        exact ⟨[], cs, by rw [hc]; rfl, rfl, .nil⟩
      next hc =>
        split at h
        next hb =>
          obtain ⟨⟨value', n'⟩, hrest, hvn⟩ := Option.map_eq_some_iff.mp h
          cases hvn
          obtain ⟨body, rest, rfl, rfl, hbody⟩ := ih hrest
          exact ⟨backslash :: body, rest, by rw [hb]; rfl, rfl, hbody⟩
        next hb =>
          obtain ⟨⟨value', n'⟩, hrest, hvn⟩ := Option.map_eq_some_iff.mp h
          cases hvn
          obtain ⟨body, rest, rfl, rfl, hbody⟩ := ih hrest
          exact ⟨c :: body, rest, rfl, rfl, .plain hc hb hbody⟩

theorem stringRest_quoted {delim : UInt8} (hdelim : delim ≠ backslash) {body value : List UInt8}
    (h : Quoted delim body value) (rest : List UInt8) :
    stringRest delim false (body ++ delim :: rest) = some (value, body.length + 1) := by
  induction h with
  | nil => simp [stringRest]
  | plain hc hb h ih => simp [stringRest, hc, hb, ih]
  | escaped h ih => simp [stringRest, Ne.symm hdelim, ih]

theorem not_closed {delim : UInt8} (hquote : delim = singleQuote ∨ delim = doubleQuote)
    {text : List UInt8} (h : stringRest delim false text = none) : ¬Closed delim text := by
  rintro ⟨body, value, rest, rfl, hbody⟩
  have hdelim : delim ≠ backslash := by rcases hquote with rfl | rfl <;> decide
  rw [stringRest_quoted hdelim hbody] at h
  cases h

/-- A text is a whole run of bytes and what does not extend it. -/
theorem run_split (f : UInt8 → Bool) (cs : List UInt8) :
    ∃ run rest, cs.takeWhile f = run ∧ cs = run ++ rest ∧ (∀ b ∈ run, f b = true) ∧
      ∀ b ∈ rest.head?, f b = false := by
  refine ⟨cs.takeWhile f, cs.dropWhile f, rfl, List.takeWhile_append_dropWhile.symm,
    fun b hb => List.mem_takeWhile_imp hb, fun b hb => ?_⟩
  have hstop := List.head?_dropWhile_not f cs
  rw [Option.mem_def.mp hb] at hstop
  exact hstop

/-- What the lexer takes is a whole lexeme. -/
theorem lexeme_whole {text : List UInt8} (h : (lexeme text).2 ≠ 0) :
    WholeLexeme (lexeme text).1.symbol (text.take (lexeme text).2)
      (text.drop (lexeme text).2) := by
  have hscan := lexeme_scanned text
  generalize (lexeme text).1 = lx, (lexeme text).2 = n at hscan h
  cases hscan with
  | stop _ | number _ _ _ | openString _ _ _ _ _ | error _ _ _ _ _ => exact absurd rfl h
  | sign _ _ hs => exact .sign hs
  | @integer c cs _ hc hdot =>
    obtain ⟨run, rest, hrun, rfl, hall, hnext⟩ := run_split isDigit cs
    rw [hrun] at hdot ⊢
    rw [List.drop_left] at hdot
    rw [List.take_succ_cons, List.take_left, List.drop_succ_cons, List.drop_left]
    refine .integer hc hall fun b hb => ⟨hnext b hb, ?_⟩
    rintro rfl
    exact hdot hb
  | @word c cs _ _ _ _ hl =>
    obtain ⟨run, rest, hrun, rfl, hall, hnext⟩ := run_split isWordByte cs
    rw [hrun, wordLexeme_symbol, List.length_cons, List.take_succ_cons, List.take_left,
      List.drop_succ_cons, List.drop_left]
    exact .word hl hall hnext
  | @string c cs value n _ _ _ hq hv =>
    obtain ⟨body, rest, rfl, rfl, hbody⟩ := quoted_of_stringRest hv
    have htext : body ++ c :: rest = (body ++ [c]) ++ rest := by simp
    have hlen : body.length + 1 = (body ++ [c]).length := by simp
    rw [htext, hlen, List.take_succ_cons, List.take_left, List.drop_succ_cons, List.drop_left]
    exact .string hq hbody

/-! ## The states between calls -/

section

variable {σ τ α : Type}

theorem forget_sim {R : Parser σ → Parser τ → Prop} {m : ParserM σ α} {n : ParserM τ α}
    (h : Sim R m n) : Sim R (forget m) (forget n) := Sim.bind h fun _ => Sim.pure ()

theorem forget_state (m : ParserM σ α) (p : Parser σ) :
    ((forget m).run p).2 = (m.run p).2 := by
  obtain ⟨o, p', hm⟩ : ∃ o p', m.run p = (o, p') := ⟨_, _, rfl⟩
  rw [hm, forget]
  cases o with
  | ok a => rw [bind_ok hm, run_pure]
  | throw e => rw [bind_throw hm]
  | outOfFuel => rw [bind_outOfFuel hm]

end

variable {rd : StreamReader ρ} {s : List UInt8} {fuel : Nat}

/-- A call over the buffer does what it does over the stream in memory. -/
theorem call_mirrors (hfuel : s.length < fuel) (c : Call) :
    Sim (Mirrors rd s) (c.on (bufferSource rd fuel) fuel) (c.on memorySource fuel) := by
  have hlexer := scanner_mirrors rd s hfuel
  have htraced := traced_sim (bufferSource rd fuel)
  have hmemory := buffer_memory_sim rd s hfuel
  cases c with
  | peekSymbol => exact forget_sim hlexer.peekSymbol
  | parseSymbol symbol => exact hlexer.parseSymbol symbol
  | parseIdentifier => exact forget_sim hlexer.parseIdentifier
  | parseString => exact forget_sim hlexer.parseString
  | parseInteger => exact forget_sim hlexer.parseInteger
  | peekAt k => exact forget_sim ((peekAt_sim htraced k).trans (peekAt_sim hmemory k))
  | skipWhitespace =>
    exact (skipWhitespace_sim htraced fuel).trans (skipWhitespace_sim hmemory fuel)
  | trimOpportunity => exact (trim_sim htraced).trans (trim_sim hmemory)

/-- The parser over the stream in memory stands at a token between calls. -/
theorem call_rel (hfuel : s.length < fuel) (c : Call) {q : Parser Memory} {t : TokenState}
    (h : TokenRel s q t) : ∃ t', TokenRel s ((c.on memorySource fuel).run q).2 t' := by
  have hlexer := scanner_token_sim hfuel
  cases c with
  | peekSymbol =>
    rw [Call.on, forget_state]
    exact ⟨_, (hlexer.peekSymbol q t h).2⟩
  | parseSymbol symbol => exact ⟨_, (hlexer.parseSymbol symbol q t h).2⟩
  | parseIdentifier =>
    rw [Call.on, forget_state]
    exact ⟨_, (hlexer.parseIdentifier q t h).2⟩
  | parseString =>
    rw [Call.on, forget_state]
    exact ⟨_, (hlexer.parseString q t h).2⟩
  | parseInteger =>
    rw [Call.on, forget_state]
    exact ⟨_, (hlexer.parseInteger q t h).2⟩
  | peekAt k =>
    rw [Call.on, forget_state, ScanningLemmas.peekAt_run]
    exact ⟨t, h⟩
  | skipWhitespace =>
    rw [Call.on, skipWhitespace_run (unread_lt h hfuel)]
    exact ⟨_, skipped_rel h⟩
  | trimOpportunity => exact ⟨t, h⟩

variable {r : ρ} {filename : List UInt8} {p : Parser (Buffer ρ)}

/-- Between calls the parser stands at a token of the stream. -/
theorem reachable_rel (h : Delivers rd r s) (hfuel : s.length < fuel)
    (hp : Reachable rd fuel filename r p) :
    ∃ q t, Mirrors rd s p q ∧ TokenRel s q t := by
  induction hp with
  | init =>
    exact ⟨_, _, mirrors_of_holds (p := Parser.init filename (Buffer.init r)) (holds_init h),
      tokenRel_init filename s⟩
  | call c _ ih =>
    obtain ⟨q, t, hpq, hqt⟩ := ih
    obtain ⟨t', hqt'⟩ := call_rel hfuel c hqt
    exact ⟨_, t', (call_mirrors hfuel c _ q hpq).2, hqt'⟩

/-! ## Looking and taking -/

/-- At the start of a token there is no blank. -/
theorem not_blank {pos : DocumentPosition} {text : List UInt8}
    (h : (skipBlank false pos text).2 = 0) : isBlank (text.getD 0 nul) = false := by
  have hblanks := skipBlank_blanks false pos text
  generalize skipBlank false pos text = r at h hblanks
  cases hblanks with
  | stop hend =>
    cases text with
    | nil => rfl
    | cons c cs => exact (hend c rfl).1
  | blank _ _ => cases h

theorem cacheExact_of_rel (hfuel : s.length < fuel) {q : Parser Memory} {t : TokenState}
    (hpq : Mirrors rd s p q) (hqt : TokenRel s q t) : CacheExact rd fuel p := by
  rcases hqt.cached with hinvalid | ⟨hzero, hsym⟩
  · exact Or.inl (hpq.nextSymbol.trans hinvalid)
  · have hclear : Mirrors rd s { p with nextSymbol := .invalid }
        { q with nextSymbol := .invalid } := by
      obtain ⟨tr, ⟨hstate, hpos, -⟩, hrel, hpos', -⟩ := hpq
      exact ⟨{ tr with nextSymbol := .invalid }, ⟨hstate, hpos, rfl⟩, hrel, hpos', rfl⟩
    have hcleared : TokenRel s { q with nextSymbol := .invalid } t :=
      ⟨hqt.text, hqt.inside, hqt.pos, hqt.toks, Or.inl rfl⟩
    have hunread : q.source.unread = s.drop q.source.cursor := by rw [Memory.unread, hqt.text]
    have hstay : peeked { q with nextSymbol := .invalid } =
        { q with nextSymbol := (lexeme q.source.unread).1.symbol } := by
      rw [peeked_invalid rfl]
      dsimp only [moved]
      rw [skipBlank_zero hzero, List.drop_zero, Nat.add_zero]
    have hhead : t.head.symbol = p.nextSymbol := by
      rw [(rel_head hqt).1, hzero, List.drop_zero, hpq.nextSymbol, hsym]
    obtain ⟨hout, hsame⟩ := (scanner_mirrors rd s hfuel).peekSymbol _ _ hclear
    dsimp only [scanner] at hout hsame
    rw [(peekSymbol_rel hfuel hcleared).1, hstay] at hout hsame
    refine Or.inr ⟨s.drop q.source.cursor, _, Prod.ext (hout.trans (by rw [hhead])) rfl,
      hpq.holds hqt.inside, hsame.holds hqt.inside, hsame.pos.trans hpq.pos.symm, ?_⟩
    exact hunread ▸ not_blank hzero

theorem open_lexeme {text : List UInt8} (h : (lexeme text).1 = .openString) :
    ∃ delim cs, text = delim :: cs ∧ (delim = singleQuote ∨ delim = doubleQuote) ∧
      ¬Closed delim cs := by
  have hscan := lexeme_scanned text
  generalize (lexeme text).1 = lx, (lexeme text).2 = n at hscan h
  cases hscan with
  | openString _ _ _ hquote hv => exact ⟨_, _, rfl, hquote, not_closed hquote hv⟩
  | word _ _ _ _ _ =>
    unfold wordLexeme at h
    split at h <;> cases h
  | _ => cases h

/-- What a call that takes a token does over the stream in memory. -/
theorem forget_outcome {α : Type} {symbol : Symbol} {take : Lexeme → Option α}
    {m : ParserM Memory α} {q : Parser Memory} {t : TokenState}
    (h : TakeOutcome symbol take q t (m.run q)) :
    TakeOutcome symbol (fun lx => (take lx).map fun _ => ()) q t ((forget m).run q) := by
  obtain ⟨o, q', hm⟩ : ∃ o q', m.run q = (o, q') := ⟨_, _, rfl⟩
  rw [hm] at h
  rw [forget]
  cases h with
  | took hsym htake hlen =>
    rw [bind_ok hm, run_pure]
    exact .took hsym (by rw [htake]; rfl) hlen
  | hangs hstring hopen htake =>
    rw [bind_outOfFuel hm]
    exact .hangs hstring hopen (by rw [htake]; rfl)
  | refused hsym htake hthrow =>
    rw [bind_throw hm]
    exact .refused hsym (by rw [htake]; rfl) hthrow

theorem call_outcome (hfuel : s.length < fuel) {c : Call} {symbol : Symbol}
    (hc : c.takes = some symbol) {q : Parser Memory} {t : TokenState} (h : TokenRel s q t) :
    (∃ take, TakeOutcome symbol take q t ((c.on memorySource fuel).run q)) ∨
      ∃ e q', (c.on memorySource fuel).run q = (.throw e, q') := by
  cases c with
  | parseSymbol symbol' =>
    cases hc
    cases hlen : symbolLength symbol with
    | some n => exact Or.inl ⟨_, parseSymbol_outcome hfuel hlen h⟩
    | none =>
      -- `expect` passes or not, and then there is nothing to take
      have hthrows : ∀ o q', (expect (Happy.peekSymbol memorySource fuel) Parser.pos symbol).run q =
          (o, q') → o ≠ .outOfFuel →
          ∃ e q'', (Happy.parseSymbol memorySource fuel symbol).run q = (.throw e, q'') := by
        intro o q' hexpect ho
        unfold Happy.parseSymbol
        rw [hlen]
        cases o with
        | ok _ => exact ⟨_, _, (bind_ok hexpect).trans rfl⟩
        | throw e => exact ⟨e, q', bind_throw hexpect⟩
        | outOfFuel => exact absurd rfl ho
      by_cases hsym : t.head.symbol = symbol
      · exact Or.inr (hthrows _ _ (expect_run hfuel h hsym) nofun)
      · obtain ⟨e, hexpect, -⟩ := expect_refused hfuel h hsym
        exact Or.inr (hthrows _ _ hexpect nofun)
  | parseIdentifier =>
    cases hc
    exact Or.inl ⟨_, forget_outcome (parseIdentifier_outcome hfuel h)⟩
  | parseString =>
    cases hc
    exact Or.inl ⟨_, forget_outcome (parseString_outcome hfuel h)⟩
  | parseInteger =>
    cases hc
    exact Or.inl ⟨_, forget_outcome (parseInteger_outcome hfuel h)⟩
  | peekSymbol | peekAt k | skipWhitespace | trimOpportunity => cases hc

theorem consumes_of_outcome (hfuel : s.length < fuel) {symbol : Symbol}
    {take : Lexeme → Option Unit} {m : ParserM (Buffer ρ) Unit} {m' : ParserM Memory Unit}
    (hsim : Sim (Mirrors rd s) m m') {q : Parser Memory} {t : TokenState} (hpq : Mirrors rd s p q)
    (hqt : TokenRel s q t) (hout : TakeOutcome symbol take q t (m'.run q)) :
    Consumes rd fuel symbol p (m.run p) := by
  obtain ⟨hrun, hat⟩ := peekSymbol_rel hfuel hqt
  obtain ⟨hpeek, hpeeked⟩ := (scanner_mirrors rd s hfuel).peekSymbol p q hpq
  dsimp only [scanner] at hpeek hpeeked
  rw [hrun] at hpeek hpeeked
  have hhead : t.head = (lexeme (peeked q).source.unread).1 := hat.head
  have hunread : (peeked q).source.unread = s.drop (peeked q).source.cursor := by
    rw [Memory.unread, hat.rel.text]
  have hholds := hpeeked.holds hat.rel.inside
  rw [← hunread] at hholds
  obtain ⟨hsame, hmirrors⟩ := hsim p q hpq
  obtain ⟨o, p', hm⟩ : ∃ o p', m.run p = (o, p') := ⟨_, _, rfl⟩
  obtain ⟨o', q', hm'⟩ : ∃ o' q', m'.run q = (o', q') := ⟨_, _, rfl⟩
  rw [hm, hm'] at hsame hmirrors
  rw [hm'] at hout
  rw [hm]
  obtain rfl : o = o' := hsame
  cases hout with
  | took hsym htake hlen =>
    have hword := lexeme_whole hlen
    rw [← hhead, hsym] at hword
    have hrest := hmirrors.holds (consumed_rel hat hlen).inside
    have hcursor : s.drop (consumed (peeked q)).source.cursor =
        (peeked q).source.unread.drop (lexeme (peeked q).source.unread).2 := by
      rw [← consumed_unread, Memory.unread]
      exact congrArg _ hat.rel.text.symm
    rw [hcursor] at hrest
    have hle := lexeme_le (peeked q).source.unread
    refine .took (Prod.ext (hpeek.trans (by rw [hsym])) rfl) ?_ ?_ hword hrest hmirrors.nextSymbol
    · rw [List.take_append_drop]
      exact hholds
    · rw [List.length_take]
      omega
  | hangs hstring hopen htake =>
    rw [hhead] at hopen
    obtain ⟨delim, cs, htext, hquote, hclosed⟩ := open_lexeme hopen
    have hsym : t.head.symbol = symbol := by rw [hhead, hopen, hstring]; rfl
    rw [htext] at hholds
    exact .hangs hstring (Prod.ext (hpeek.trans (by rw [hsym])) rfl) hholds hquote hclosed
  | refused hsym htake hthrow => exact .threw

end ConsumingLemmas

open ConsumingLemmas ScanningLemmas PlacingLemmas

/-- The grammar functions only pass through states that calls lead to. -/
theorem grammar_reachable {α : Type} {m : (σ : Type) → Lexer σ → Run σ Exception α}
    (hm : Uniform m) {rd : StreamReader ρ} {fuel : Nat} {filename : List UInt8} {r : ρ}
    {p : Parser (Buffer ρ)} (hp : Reachable rd fuel filename r p) :
    Reachable rd fuel filename r ((m _ (scanner (bufferSource rd fuel) fuel)).run p).2 := by
  have hkept : ∀ {β : Type} (m : ParserM (Buffer ρ) β) (c : Call),
      (∀ p, ((c.on (bufferSource rd fuel) fuel).run p).2 = (m.run p).2) →
      Sim (fun p q => p = q ∧ Reachable rd fuel filename r p) m m := by
    rintro β m c hstate p _ ⟨rfl, hp⟩
    refine ⟨rfl, rfl, ?_⟩
    rw [← hstate]
    exact hp.call c
  have hlexer : LexerSim (scanner (bufferSource rd fuel) fuel) (scanner (bufferSource rd fuel) fuel)
      fun p q => p = q ∧ Reachable rd fuel filename r p :=
    { peekSymbol := hkept _ .peekSymbol fun p => forget_state _ p
      parseSymbol := fun symbol => hkept _ (.parseSymbol symbol) fun _ => rfl
      parseIdentifier := hkept _ .parseIdentifier fun p => forget_state _ p
      parseString := hkept _ .parseString fun p => forget_state _ p
      parseInteger := hkept _ .parseInteger fun p => forget_state _ p
      currentPosition := fun p q h => by rw [h.1] }
  exact (hm _ _ _ _ _ hlexer p p ⟨rfl, hp⟩).2.2

theorem cached_symbol_exact {rd : StreamReader ρ} {r : ρ} {s : List UInt8} (h : Delivers rd r s)
    {fuel : Nat} (hfuel : s.length < fuel) {filename : List UInt8} {p : Parser (Buffer ρ)}
    (hp : Reachable rd fuel filename r p) :
    CacheExact rd fuel p ∧ ∀ (c : Call) (symbol : Symbol), c.takes = some symbol →
      Consumes rd fuel symbol p ((c.on (bufferSource rd fuel) fuel).run p) := by
  obtain ⟨q, t, hpq, hqt⟩ := reachable_rel h hfuel hp
  refine ⟨cacheExact_of_rel hfuel hpq hqt, fun c symbol hc => ?_⟩
  have hsim : Sim (Mirrors rd s) _ _ := call_mirrors hfuel c
  rcases call_outcome hfuel hc hqt with ⟨take, hout⟩ | ⟨e, q', hthrow⟩
  · exact consumes_of_outcome hfuel hsim hpq hqt hout
  · have hsame := (hsim p q hpq).1
    obtain ⟨o, p', hrun⟩ : ∃ o p', (c.on (bufferSource rd fuel) fuel).run p = (o, p') :=
      ⟨_, _, rfl⟩
    rw [hthrow, hrun] at hsame
    rw [hrun]
    obtain rfl : o = .throw e := hsame
    exact .threw

/-- The identifier of `ab.c`, looked at and not taken yet. -/
theorem cached_symbol_exact_identifier :
    let p := ((Call.peekSymbol.on (bufferSource stdinReader 8) 8).run
      (Parser.init [] (Buffer.init (bytes ['a', 'b', '.', 'c'])))).2
    CacheExact stdinReader 8 p ∧ ∀ (c : Call) (symbol : Symbol), c.takes = some symbol →
      Consumes stdinReader 8 symbol p ((c.on (bufferSource stdinReader 8) 8).run p) :=
  cached_symbol_exact (stdinReader_delivers (bytes ['a', 'b', '.', 'c'])) (by decide)
    (.call .peekSymbol .init)

/-- The text of a string literal that denotes `value`. -/
def literal (delim : UInt8) (value : AstString) : List UInt8 :=
  delim :: (FragmentLemmas.escape delim value ++ [delim])

namespace ConsumingLemmas

open LexingLemmas ScanningLemmas PlacingLemmas FragmentLemmas

theorem lexeme_literal {delim : UInt8} (hdelim : delim = singleQuote ∨ delim = doubleQuote)
    (value : AstString) (rest : List UInt8) :
    lexeme (literal delim value ++ rest) = (.string value, (literal delim value).length) := by
  have hsign : delim ≠ nul ∧ ¬(isDigit delim ∨ delim = minusSign ∨ delim = plusSign) ∧
      signSymbol delim = none := by
    rcases hdelim with rfl | rfl <;> decide
  have hrest := every_string_denoted value hdelim rest
  rw [literal, List.cons_append, List.append_assoc, List.singleton_append]
  simp only [lexeme]
  rw [if_neg hsign.1, if_neg hsign.2.1, hsign.2.2]
  simp only [if_pos hdelim, hrest]
  simp

theorem literal_start {delim : UInt8} (hdelim : delim = singleQuote ∨ delim = doubleQuote)
    (pos : DocumentPosition) (value : AstString) (rest : List UInt8) :
    (skipBlank false pos (literal delim value ++ rest)).2 = 0 := by
  have hblank : isBlank delim = false := by rcases hdelim with rfl | rfl <;> rfl
  exact congrArg Prod.snd (skipBlank_stop pos hblank)

/-- `parse_string` over the stream in memory, with the cursor on a literal. -/
theorem literal_taken {delim : UInt8} (hdelim : delim = singleQuote ∨ delim = doubleQuote)
    {value : AstString} {rest s : List UInt8} {fuel : Nat} (hfuel : s.length < fuel)
    {q : Parser Memory} {t : TokenState} (h : TokenRel s q t)
    (hunread : q.source.unread = literal delim value ++ rest) :
    ∃ q', (parseString memorySource fuel).run q = (.ok value, q') ∧
      q'.source.cursor = q.source.cursor + (literal delim value).length ∧
      q'.source.cursor ≤ s.length ∧ q'.pos = q.pos.over (literal delim value) ∧
      q'.nextSymbol = .invalid := by
  have hlexeme := lexeme_literal hdelim value rest
  have hstart := literal_start hdelim q.pos value rest
  rw [← hunread] at hlexeme hstart
  have hhead := (rel_head h).1
  rw [hstart, List.drop_zero, hlexeme] at hhead
  obtain ⟨hsource, hpos⟩ := peeked_here hstart
  have hout := parseString_outcome hfuel h
  obtain ⟨o, q', hrun⟩ : ∃ o q', (parseString memorySource fuel).run q = (o, q') := ⟨_, _, rfl⟩
  rw [hrun] at hout
  cases hout with
  | took _ htake hlen =>
    rw [hhead] at htake
    cases htake
    refine ⟨_, hrun, ?_, (consumed_rel (peekSymbol_rel hfuel h).2 hlen).inside, ?_, rfl⟩
    · show (peeked q).source.cursor + (lexeme (peeked q).source.unread).2 = _
      rw [hsource, hlexeme]
    · show (peeked q).pos.over ((peeked q).source.unread.take
        (lexeme (peeked q).source.unread).2) = _
      rw [hsource, hpos, hlexeme, hunread, List.take_left]
  | hangs _ hopen _ =>
    rw [hhead] at hopen
    cases hopen
  | refused hsym _ _ =>
    rw [hhead] at hsym
    exact absurd rfl hsym

end ConsumingLemmas

/-- Every string of bytes is read back from its literal. -/
theorem string_read_back (value : AstString) {delim : UInt8}
    (hdelim : delim = singleQuote ∨ delim = doubleQuote) (rest : List UInt8)
    {rd : StreamReader ρ} {p : Parser (Buffer ρ)}
    (h : Holds rd p.source (literal delim value ++ rest))
    (hsym : p.nextSymbol = .invalid ∨ p.nextSymbol = .string) {fuel : Nat}
    (hfuel : (literal delim value ++ rest).length < fuel) :
    ∃ p', (parseString (bufferSource rd fuel) fuel).run p = (.ok value, p') ∧
      Holds rd p'.source rest ∧ p'.pos = p.pos.over (literal delim value) ∧
      p'.nextSymbol = .invalid := by
  have hpq := mirrors_of_holds h
  have hqt : TokenRel (literal delim value ++ rest)
      ⟨⟨literal delim value ++ rest, 0⟩, p.pos, p.nextSymbol⟩
      ⟨p.pos, lex p.pos (literal delim value ++ rest)⟩ := by
    refine ⟨rfl, Nat.zero_le _, rfl, rfl, ?_⟩
    rcases hsym with hinvalid | hstring
    · exact Or.inl hinvalid
    · refine Or.inr ⟨literal_start hdelim p.pos value rest, hstring.trans ?_⟩
      exact (congrArg (·.1.symbol) (lexeme_literal hdelim value rest)).symm
  obtain ⟨q', hrun, hcursor, hin, hpos, hinvalid⟩ := literal_taken hdelim hfuel hqt rfl
  obtain ⟨hout, hmirrors⟩ := (scanner_mirrors rd _ hfuel).parseString p _ hpq
  dsimp only [scanner] at hout hmirrors
  rw [hrun] at hout hmirrors
  refine ⟨_, Prod.ext hout rfl, ?_, hmirrors.pos.trans hpos, hmirrors.nextSymbol.trans hinvalid⟩
  have hholds := hmirrors.holds hin
  rw [hcursor, Nat.zero_add, List.drop_left] at hholds
  exact hholds

/-- A string of a quote, a backslash, a line feed and a NUL byte. -/
theorem string_read_back_escaped :
    let value := [singleQuote, backslash, lineFeed, nul]
    let p := Parser.init [] (Buffer.init (literal singleQuote value ++ [lineFeed]))
    ∃ p', (parseString (bufferSource stdinReader 16) 16).run p = (.ok value, p') ∧
      Holds stdinReader p'.source [lineFeed] ∧
      p'.pos = p.pos.over (literal singleQuote value) ∧ p'.nextSymbol = .invalid :=
  string_read_back [singleQuote, backslash, lineFeed, nul] (Or.inl rfl) [lineFeed]
    (holds_init (stdinReader_delivers _)) (Or.inl rfl) (by decide)

end Ian.Happy
