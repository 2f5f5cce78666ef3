import Ian.Happy.Scanning

/-!
# Where the parser stops

Every exception is thrown, and a document is accepted, right after a look at the
next symbol: so in the state that is left, a symbol is cached and the cursor is
at the first byte of a token. The exception is a `ParseException` with the
position of the cursor, and its message names the cached symbol. That
`parse_symbol` never throws a `std::logic_error` is part of it: the grammar
functions call it with signs and keywords only.
-/

namespace Ian.Happy

open Ian.Lib Run

/-- The message of `unexpected`, up to what was expected instead. -/
def unexpectedText (found : Symbol) (tail : String) : String :=
  "Unexpected symbol " ++ symbolStr found ++ tail

/-- `Q` holds of a `ParseException` thrown after the look `peek` at the next
symbol. -/
def Looks {σ : Type} (peek : Run σ Exception Symbol) (pos : σ → DocumentPosition)
    (Q : Exception → σ → Prop) : Prop :=
  Returns (fun found s => ∀ tail, Q (.parse (pos s) (unexpectedText found tail)) s) peek

/-- `Q` holds of what is thrown after a look at the next symbol, and of what the
lexical functions throw. -/
structure LexerStops {σ : Type} (lx : Lexer σ) (Q : Exception → σ → Prop) : Prop where
  looks : Looks lx.peekSymbol lx.currentPosition Q
  peekSymbol : Throws Q lx.peekSymbol
  parseSymbol : ∀ s, (symbolLength s).isSome → Throws Q (lx.parseSymbol s)
  parseIdentifier : Throws Q lx.parseIdentifier
  parseString : Throws Q lx.parseString
  parseInteger : Throws Q lx.parseInteger

/-- A symbol is cached. -/
def Cached {σ : Type} (p : Parser σ) : Prop := p.nextSymbol ≠ .invalid

/-- The exception is about the symbol that is cached. -/
structure Blames {σ : Type} (e : Exception) (p : Parser σ) : Prop where
  cached : Cached p
  text : ∃ tail, e = .parse p.pos (unexpectedText p.nextSymbol tail)

namespace StoppingLemmas

open ScanningLemmas

/-! ## Lexical functions -/

section

variable {σ : Type} {src : Source σ} {Q : Exception → Parser σ → Prop}

/-- Reading the source throws nothing. -/
def Silent (src : Source σ) : Prop := ∀ k s e s', (src.peekAt k).run s ≠ (.throw e, s')

theorem peekAt_throws (h : Silent src) (k : Nat) : Throws Q (peekAt src k) := by
  intro p e p' hrun
  obtain ⟨hthrow, _⟩ := Prod.mk.inj hrun
  have hpeek : (src.peekAt k).run p.source = (.throw e, ((src.peekAt k).run p.source).2) :=
    Prod.ext hthrow rfl
  exact absurd hpeek (h k p.source e _)

theorem skipWhitespace_throws (h : Silent src) (fuel : Nat) :
    Throws Q (skipWhitespace src fuel) := by
  have hcomment : Throws Q (skipComment src fuel) := by
    refine Throws.loop (fun _ => ?_) fuel ()
    refine Throws.bind (Throws.modify _) fun _ => Throws.bind (Throws.modify _) fun _ => ?_
    exact Throws.bind (peekAt_throws h 0) fun c => Throws.ite (Throws.pure _) (Throws.pure _)
  refine Throws.bind (peekAt_throws h 0) fun c => ?_
  refine Throws.bind (Throws.loop (fun c => ?_) fuel c) fun _ => Throws.modify _
  refine Throws.ite ?_ (Throws.pure _)
  refine Throws.bind (Throws.modify _) fun _ => Throws.bind (Throws.modify _) fun _ => ?_
  refine Throws.ite (Throws.bind hcomment fun _ => Throws.pure _) ?_
  exact Throws.bind (Throws.modify _) fun _ => Throws.bind (peekAt_throws h 0) fun _ =>
    Throws.pure _

theorem advancePos_throws (h : Silent src) (n i : Nat) : Throws Q (advancePos src n i) := by
  induction n generalizing i with
  | zero => exact Throws.pure ()
  | succ n ih =>
    exact Throws.bind (peekAt_throws h i) fun _ => Throws.bind (Throws.modify _) fun _ => ih (i + 1)

theorem advance_throws (h : Silent src) (n : Nat) : Throws Q (advance src n) :=
  Throws.bind (advancePos_throws h n 0) fun _ => Throws.bind (Throws.modify _) fun _ =>
    Throws.bind (Throws.modify _) fun _ => Throws.modify _

theorem setSymbol_throws (s : Symbol) : Throws Q (setSymbol s : ParserM σ Symbol) :=
  fun _ _ _ h => nomatch h

theorem scanNumber_throws (h : Silent src) (fuel : Nat) : Throws Q (scanNumber src fuel) := by
  refine Throws.loop (fun off => Throws.bind (peekAt_throws h off) fun c => ?_) fuel 1
  exact Throws.ite (Throws.ite (Throws.pure _) (Throws.pure _)) (Throws.pure _)

/-- A loop that collects bytes throws nothing. -/
theorem collect_throws {β : Type} (h : Silent src) (f : UInt8 → Bool)
    (finish : Nat → List UInt8 → β) (fuel : Nat) (b : Nat × List UInt8) :
    Throws Q (loop (fun (b : Nat × List UInt8) => (do
      let c ← peekAt src b.1
      if f c then pure (.again (b.1 + 1, b.2 ++ [c]))
      else pure (.done (finish b.1 b.2)) : ParserM σ (Iter (Nat × List UInt8) β))) fuel b) :=
  Throws.loop (fun b => Throws.bind (peekAt_throws h b.1) fun _ =>
    Throws.ite (Throws.pure _) (Throws.pure _)) fuel b

theorem peekSymbol_throws (h : Silent src) (fuel : Nat) : Throws Q (peekSymbol src fuel) := by
  refine Throws.bind (Throws.gets _) fun cached => Throws.ite (Throws.pure _) ?_
  refine Throws.bind (skipWhitespace_throws h fuel) fun _ => ?_
  refine Throws.bind (peekAt_throws h 0) fun c => ?_
  refine Throws.ite (setSymbol_throws _) (Throws.ite ?_ ?_)
  · exact Throws.bind (scanNumber_throws h fuel) fun s => setSymbol_throws s
  · split
    · exact setSymbol_throws _
    · refine Throws.ite (setSymbol_throws _) (Throws.ite ?_ (setSymbol_throws _))
      exact Throws.bind (collect_throws h isWordByte (fun _ str => str) fuel _) fun _ =>
        setSymbol_throws _

/-- The answer of a look at the next symbol is cached. -/
def Answered (found : Symbol) (p : Parser σ) : Prop := p.nextSymbol = found ∧ Cached p

theorem setSymbol_returns {s : Symbol} (h : s ≠ .invalid) :
    Returns Answered (setSymbol s : ParserM σ Symbol) := by
  intro p a p' hrun
  cases hrun
  exact ⟨rfl, h⟩

theorem scanNumber_symbol {fuel : Nat} {p p' : Parser σ} {s : Symbol}
    (h : (scanNumber src fuel).run p = (.ok s, p')) : s ≠ .invalid := by
  unfold scanNumber at h
  generalize 1 = off at h
  induction fuel generalizing p off with
  | zero => cases h
  | succ fuel ih =>
    rw [loop_succ] at h
    obtain ⟨i, mid, hstep, hrest⟩ := bind_eq_ok h
    cases i with
    | again off' => exact ih off' hrest
    | done s' =>
      cases hrest
      obtain ⟨c, mid', _, hc⟩ := bind_eq_ok hstep
      split at hc
      · split at hc
        · cases hc
          nofun
        · cases hc
      · cases hc
        nofun

theorem wordSymbol_valid (word : List UInt8) : wordSymbol word ≠ .invalid :=
  wordLexeme_symbol word ▸ wordLexeme_ne word rfl nofun

/-- After a look at the next symbol it is cached. -/
theorem peekSymbol_returns (src : Source σ) (fuel : Nat) :
    Returns Answered (peekSymbol src fuel) := by
  intro p a p' hrun
  by_cases hcached : p.nextSymbol = .invalid
  · rw [peekSymbol, bind_ok (run_gets _ p), if_neg (by simpa using hcached)] at hrun
    refine Returns.bind (fun _ => Returns.bind fun c => ?_) p a p' hrun
    refine Returns.ite (setSymbol_returns (by decide)) (Returns.ite ?_ ?_)
    · intro q b q' hnumber
      obtain ⟨s, mid, hscan, hset⟩ := bind_eq_ok hnumber
      exact setSymbol_returns (scanNumber_symbol hscan) mid b q' hset
    · split
      · next hsign => exact setSymbol_returns (signSymbol_ne hsign rfl)
      · refine Returns.ite (setSymbol_returns (by decide)) ?_
        refine Returns.ite ?_ (setSymbol_returns (by decide))
        exact Returns.bind fun _ => setSymbol_returns (wordSymbol_valid _)
  · rw [peekSymbol, bind_ok (run_gets _ p), if_pos (by simpa using hcached)] at hrun
    cases hrun
    exact ⟨rfl, hcached⟩

theorem peekSymbol_looks (src : Source σ) (fuel : Nat) :
    Looks (peekSymbol src fuel) Parser.pos Blames := by
  intro p found p' hrun tail
  obtain ⟨rfl, hcached⟩ := peekSymbol_returns src fuel p found p' hrun
  exact ⟨hcached, tail, rfl⟩

end

section

variable {σ α : Type} {peek : Run σ Exception Symbol} {pos : σ → DocumentPosition}
  {Q : Exception → σ → Prop}

theorem unexpected_throws (hlook : Looks peek pos Q) (h : Throws Q peek) (expected : Symbol) :
    Throws Q (unexpected peek pos expected : Run σ Exception α) := by
  intro s e s' hrun
  rcases bind_eq_throw hrun with hrun | ⟨found, mid, hpeek, hrest⟩
  · exact h s e s' hrun
  · cases hrest
    split
    · rw [String.append_assoc]
      exact hlook s found _ hpeek _
    · rw [← String.append_empty (s := _ ++ _)]
      exact hlook s found _ hpeek _

theorem unexpectedIn_throws (hlook : Looks peek pos Q) (h : Throws Q peek) (context : String) :
    Throws Q (unexpectedIn peek pos context : Run σ Exception α) := by
  intro s e s' hrun
  rcases bind_eq_throw hrun with hrun | ⟨found, mid, hpeek, hrest⟩
  · exact h s e s' hrun
  · cases hrest
    rw [String.append_assoc]
    exact hlook s found _ hpeek _

theorem expect_throws (hlook : Looks peek pos Q) (h : Throws Q peek) (expected : Symbol) :
    Throws Q (expect peek pos expected) :=
  Throws.bind h fun _ => Throws.ite (unexpected_throws hlook h expected) (Throws.pure ())

end

section

variable {σ : Type} {src : Source σ}

theorem expectSymbol_throws (h : Silent src) (fuel : Nat) (expected : Symbol) :
    Throws Blames (expect (peekSymbol src fuel) Parser.pos expected) :=
  expect_throws (peekSymbol_looks src fuel) (peekSymbol_throws h fuel) expected

theorem parseSymbol_throws (h : Silent src) (fuel : Nat) {symbol : Symbol}
    (hsymbol : (symbolLength symbol).isSome) : Throws Blames (parseSymbol src fuel symbol) := by
  obtain ⟨n, hn⟩ := Option.isSome_iff_exists.mp hsymbol
  refine Throws.bind (expectSymbol_throws h fuel symbol) fun _ => ?_
  rw [hn]
  exact Throws.bind (advance_throws h n) fun _ => Throws.modify _

theorem parseIdentifier_throws (h : Silent src) (fuel : Nat) :
    Throws Blames (parseIdentifier src fuel) := by
  refine Throws.bind (expectSymbol_throws h fuel _) fun _ => ?_
  refine Throws.bind (collect_throws h isWordByte (fun len ret => (len, ret)) fuel _) fun _ => ?_
  exact Throws.bind (advance_throws h _) fun _ => Throws.pure _

theorem parseString_throws (h : Silent src) (fuel : Nat) :
    Throws Blames (parseString src fuel) := by
  refine Throws.bind (expectSymbol_throws h fuel _) fun _ => ?_
  refine Throws.bind (peekAt_throws h 0) fun delim => ?_
  refine Throws.bind (Throws.loop (fun b => ?_) fuel _) fun _ => ?_
  · refine Throws.bind (peekAt_throws h _) fun c => Throws.ite (Throws.pure _) (Throws.ite ?_ ?_)
    · exact Throws.bind (peekAt_throws h _) fun _ => Throws.pure _
    · exact Throws.pure _
  · exact Throws.bind (advance_throws h _) fun _ => Throws.pure _

theorem parseInteger_throws (h : Silent src) (fuel : Nat) :
    Throws Blames (parseInteger src fuel) := by
  refine Throws.bind (expectSymbol_throws h fuel _) fun _ => ?_
  refine Throws.bind (peekAt_throws h 0) fun first => ?_
  refine Throws.bind (Throws.loop (fun b => ?_) fuel _) fun _ => ?_
  · exact Throws.bind (peekAt_throws h _) fun c => Throws.ite (Throws.pure _) (Throws.pure _)
  · exact Throws.bind (advance_throws h _) fun _ => Throws.pure _

/-- A look at the next symbol leaves it cached. -/
theorem peekSymbol_cached (src : Source σ) (fuel : Nat) :
    Returns (fun _ => Cached) (peekSymbol src fuel) :=
  fun p found p' hrun => (peekSymbol_returns src fuel p found p' hrun).2

theorem scanner_stops (h : Silent src) (fuel : Nat) : LexerStops (scanner src fuel) Blames where
  looks := peekSymbol_looks src fuel
  peekSymbol := peekSymbol_throws h fuel
  parseSymbol _ := parseSymbol_throws h fuel
  parseIdentifier := parseIdentifier_throws h fuel
  parseString := parseString_throws h fuel
  parseInteger := parseInteger_throws h fuel

theorem bufferSource_silent {ρ : Type} (rd : StreamReader ρ) (fuel : Nat) :
    Silent (bufferSource rd fuel) := by
  have hpeek : ∀ offset, Throws (fun _ _ => False) (Buffer.peekAt rd fuel offset) := by
    intro offset
    refine Throws.loop (fun _ => Throws.bind (Throws.gets _) fun b => ?_) fuel ()
    refine Throws.ite ?_ (Throws.pure _)
    exact Throws.bind (fun _ _ _ h => nomatch h) fun _ => Throws.ite (Throws.pure _) (Throws.pure _)
  exact fun k s e s' hrun => hpeek k s e s' hrun

end

/-! ## Grammar functions -/

section

variable {σ : Type} {lx : Lexer σ} {Q : Exception → σ → Prop}

theorem parseQualifiedIdentifier_throws (h : LexerStops lx Q) (fuel : Nat) :
    Throws Q (parseQualifiedIdentifier lx fuel) := by
  refine Throws.bind h.parseIdentifier fun tmp => Throws.loop (fun b => ?_) fuel _
  refine Throws.bind h.peekSymbol fun s => Throws.ite ?_ (Throws.pure _)
  exact Throws.bind (h.parseSymbol _ rfl) fun _ => Throws.bind h.parseIdentifier fun _ =>
    Throws.pure _

theorem parseType_throws (h : LexerStops lx Q) (fuel : Nat) : Throws Q (parseType lx fuel) := by
  refine Throws.bind (parseQualifiedIdentifier_throws h fuel) fun identifier => ?_
  refine Throws.bind h.peekSymbol fun s => Throws.ite ?_ (Throws.pure _)
  refine Throws.bind (h.parseSymbol _ rfl) fun _ => Throws.bind h.parseInteger fun size => ?_
  exact Throws.bind (h.parseSymbol _ rfl) fun _ => Throws.pure _

theorem parseInclude_throws (h : LexerStops lx Q) : Throws Q (parseInclude lx) :=
  Throws.bind (Throws.gets _) fun _ => Throws.bind (h.parseSymbol _ rfl) fun _ =>
    Throws.bind h.parseString fun _ => Throws.pure _

theorem parseFields_throws {α : Type} (h : LexerStops lx Q) (fuel : Nat)
    {item : Run σ Exception α} (hitem : Throws Q item) : Throws Q (parseFields lx fuel item) := by
  refine Throws.loop (fun fields => Throws.bind h.peekSymbol fun s => Throws.ite ?_ ?_) fuel _
  · exact Throws.bind hitem fun _ => Throws.pure _
  · exact Throws.pure _

theorem parseStructField_throws (h : LexerStops lx Q) (fuel : Nat) :
    Throws Q (parseStructField lx fuel) := by
  refine Throws.bind (Throws.gets _) fun origin => Throws.bind h.parseIdentifier fun _ => ?_
  refine Throws.bind (h.parseSymbol _ rfl) fun _ => ?_
  exact Throws.bind (parseType_throws h fuel) fun _ => Throws.pure _

theorem parseStruct_throws (h : LexerStops lx Q) (fuel : Nat) :
    Throws Q (parseStruct lx fuel) := by
  refine Throws.bind (Throws.gets _) fun origin => Throws.bind (h.parseSymbol _ rfl) fun _ => ?_
  refine Throws.bind h.parseIdentifier fun _ => Throws.bind (h.parseSymbol _ rfl) fun _ => ?_
  refine Throws.bind (parseFields_throws h fuel (parseStructField_throws h fuel)) fun _ => ?_
  exact Throws.bind (h.parseSymbol _ rfl) fun _ => Throws.pure _

theorem parseMappingField_throws (h : LexerStops lx Q) : Throws Q (parseMappingField lx) := by
  refine Throws.bind (Throws.gets _) fun origin => Throws.bind h.parseIdentifier fun _ => ?_
  exact Throws.bind (h.parseSymbol _ rfl) fun _ => Throws.bind h.parseString fun _ => Throws.pure _

theorem parseMapping_throws (h : LexerStops lx Q) (fuel : Nat) :
    Throws Q (parseMapping lx fuel) := by
  refine Throws.bind (Throws.gets _) fun origin => Throws.bind (h.parseSymbol _ rfl) fun _ => ?_
  refine Throws.bind h.parseIdentifier fun _ => Throws.bind (h.parseSymbol _ rfl) fun _ => ?_
  refine Throws.bind (parseQualifiedIdentifier_throws h fuel) fun _ => ?_
  refine Throws.bind (h.parseSymbol _ rfl) fun _ => ?_
  refine Throws.bind (parseFields_throws h fuel (parseMappingField_throws h)) fun _ => ?_
  exact Throws.bind (h.parseSymbol _ rfl) fun _ => Throws.pure _

theorem parseEncodingName_throws (h : LexerStops lx Q) : Throws Q (parseEncodingName lx) := by
  refine Throws.bind h.peekSymbol fun s => Throws.ite ?_ (Throws.pure _)
  exact Throws.bind (h.parseSymbol _ rfl) fun _ => h.parseIdentifier

theorem parseEncodingDeltaBlock_throws (h : LexerStops lx Q) (fuel : Nat)
    {node : Run σ Exception AstEncodingNode} (hnode : Throws Q node) :
    Throws Q (parseEncodingDeltaBlock lx fuel node) := by
  refine Throws.bind (Throws.gets _) fun origin => Throws.bind (h.parseSymbol _ rfl) fun _ => ?_
  refine Throws.bind h.peekSymbol fun s => ?_
  split
  · exact Throws.bind hnode fun _ => Throws.pure _
  · refine Throws.bind (h.parseSymbol _ rfl) fun _ => ?_
    refine Throws.bind (parseFields_throws h fuel hnode) fun _ => ?_
    exact Throws.bind (h.parseSymbol _ rfl) fun _ => Throws.pure _
  · exact unexpectedIn_throws h.looks h.peekSymbol _

theorem parseEncodingNode_throws (h : LexerStops lx Q) (fuel depth : Nat) :
    Throws Q (parseEncodingNode lx fuel depth) := by
  induction depth with
  | zero => exact fun _ _ _ hrun => nomatch hrun
  | succ depth ih =>
    refine Throws.bind h.peekSymbol fun s => ?_
    split
    · exact parseEncodingDeltaBlock_throws h fuel ih
    · refine Throws.bind (Throws.gets _) fun origin => Throws.bind h.parseIdentifier fun _ => ?_
      exact Throws.bind (parseEncodingName_throws h) fun _ => Throws.pure _
    · exact unexpectedIn_throws h.looks h.peekSymbol _

theorem parseEncoding_throws (h : LexerStops lx Q) (fuel : Nat) :
    Throws Q (parseEncoding lx fuel) := by
  refine Throws.bind (Throws.gets _) fun origin => Throws.bind (h.parseSymbol _ rfl) fun _ => ?_
  refine Throws.bind h.parseIdentifier fun _ => Throws.bind (parseEncodingName_throws h) fun _ => ?_
  refine Throws.bind (h.parseSymbol _ rfl) fun _ => ?_
  refine Throws.bind (parseFields_throws h fuel (parseEncodingNode_throws h fuel fuel)) fun _ => ?_
  exact Throws.bind (h.parseSymbol _ rfl) fun _ => Throws.pure _

theorem parseNamespace_throws (h : LexerStops lx Q) (fuel : Nat) :
    Throws Q (parseNamespace lx fuel) := by
  refine Throws.bind h.peekSymbol fun s => Throws.ite ?_ (Throws.pure _)
  exact Throws.bind (h.parseSymbol _ rfl) fun _ => parseQualifiedIdentifier_throws h fuel

theorem parseDeclStep_throws (h : LexerStops lx Q) (fuel : Nat) (root : AstRoot) :
    Throws Q (parseDeclStep lx fuel root) := by
  refine Throws.bind h.peekSymbol fun s => ?_
  split
  · exact Throws.bind (parseStruct_throws h fuel) fun _ => Throws.pure _
  · exact Throws.bind (parseMapping_throws h fuel) fun _ => Throws.pure _
  · exact Throws.bind (parseEncoding_throws h fuel) fun _ => Throws.pure _
  · exact Throws.pure _
  · exact unexpectedIn_throws h.looks h.peekSymbol _

/-- The loop of a body ends with a look at the next symbol. -/
theorem parseFields_returns {α : Type} {P : σ → Prop} (h : Returns (fun _ => P) lx.peekSymbol)
    (fuel : Nat) (item : Run σ Exception α) : Returns (fun _ => P) (parseFields lx fuel item) := by
  refine Returns.loop (fun fields s as s' hrun => ?_) fuel _
  obtain ⟨found, mid, hpeek, hrest⟩ := bind_eq_ok hrun
  split at hrest
  · obtain ⟨_, _, _, hagain⟩ := bind_eq_ok hrest
    cases hagain
  · cases hrest
    exact h s found _ hpeek

end

end StoppingLemmas

open StoppingLemmas

/-- Every exception of `parse_document` is thrown right after a look at the next
symbol. -/
theorem parseDocument_throws {σ : Type} {lx : Lexer σ} {Q : Exception → σ → Prop}
    (h : LexerStops lx Q) (fuel : Nat) : Throws Q (parseDocument lx fuel) := by
  refine Throws.bind (Throws.gets _) fun origin => ?_
  refine Throws.bind (Throws.loop (fun includes => ?_) fuel _) fun includes => ?_
  · refine Throws.bind h.peekSymbol fun s => Throws.ite ?_ (Throws.pure _)
    exact Throws.bind (parseInclude_throws h) fun _ => Throws.pure _
  · refine Throws.bind (parseNamespace_throws h fuel) fun space => ?_
    exact Throws.loop (parseDeclStep_throws h fuel) fuel _

/-- A document is accepted right after a look at the next symbol. -/
theorem parseDocument_returns {σ : Type} {lx : Lexer σ} {P : σ → Prop}
    (h : Returns (fun _ => P) lx.peekSymbol) (fuel : Nat) :
    Returns (fun _ => P) (parseDocument lx fuel) := by
  refine Returns.bind fun origin => Returns.bind fun includes => Returns.bind fun space => ?_
  refine Returns.loop (fun root s t s' hrun => ?_) fuel _
  obtain ⟨found, mid, hpeek, hrest⟩ := bind_eq_ok hrun
  split at hrest
  · obtain ⟨_, _, _, hagain⟩ := bind_eq_ok hrest
    cases hagain
  · obtain ⟨_, _, _, hagain⟩ := bind_eq_ok hrest
    cases hagain
  · obtain ⟨_, _, _, hagain⟩ := bind_eq_ok hrest
    cases hagain
  · cases hrest
    exact h s _ _ hpeek
  · obtain ⟨_, _, _, hraise⟩ := bind_eq_ok hrest
    cases hraise

end Ian.Happy
