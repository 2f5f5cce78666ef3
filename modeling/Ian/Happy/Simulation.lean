import Ian.Happy.Parser

/-!
# Parsers over related sources

A relation kept by the three operations of a source is kept by the whole
parser: `scanner_sim` lifts it to the lexical functions and `parseDocument_sim`
lifts a relation between lexers to the grammar functions. Both are used at more
than one instance: the parser's buffer against the stream in memory, and the
lexical functions against the token sequence.

The cursor may only be moved over bytes that were looked at (`Peeked`): that is
what keeps `buffer_offset_` inside the buffer.
-/

namespace Ian.Happy

open Ian.Lib Run

/-- `R` relates the states of two sources and their operations keep it.
`Peeked k` says that the byte at offset `k` from the cursor was just read. -/
structure SourceSim {σ τ : Type} (src : Source σ) (src' : Source τ) (R : σ → τ → Prop)
    (Peeked : Nat → σ → τ → Prop) : Prop where
  peekAt : ∀ k s t, R s t → ((src.peekAt k).run s).1 = ((src'.peekAt k).run t).1 ∧
    R ((src.peekAt k).run s).2 ((src'.peekAt k).run t).2 ∧
    Peeked k ((src.peekAt k).run s).2 ((src'.peekAt k).run t).2
  skipZero : ∀ s t, R s t → R (src.skip 0 s) (src'.skip 0 t)
  skipSucc : ∀ n s t, R s t → Peeked n s t → R (src.skip (n + 1) s) (src'.skip (n + 1) t)
  trim : ∀ s t, R s t → R (src.trimOpportunity s) (src'.trimOpportunity t)

/-- Parsers whose sources are related and whose other members are equal. -/
def Lift {σ τ : Type} (R : σ → τ → Prop) (p : Parser σ) (q : Parser τ) : Prop :=
  R p.source q.source ∧ p.pos = q.pos ∧ p.nextSymbol = q.nextSymbol

/-- Lexers that agree on related states. -/
structure LexerSim {σ τ : Type} (lx : Lexer σ) (lx' : Lexer τ) (R : σ → τ → Prop) : Prop where
  peekSymbol : Sim R lx.peekSymbol lx'.peekSymbol
  parseSymbol : ∀ s, Sim R (lx.parseSymbol s) (lx'.parseSymbol s)
  parseIdentifier : Sim R lx.parseIdentifier lx'.parseIdentifier
  parseString : Sim R lx.parseString lx'.parseString
  parseInteger : Sim R lx.parseInteger lx'.parseInteger
  currentPosition : ∀ s t, R s t → lx.currentPosition s = lx'.currentPosition t

theorem LexerSim.trans {σ τ υ : Type} {lx : Lexer σ} {lx' : Lexer τ} {lx'' : Lexer υ}
    {R : σ → τ → Prop} {S : τ → υ → Prop} (h : LexerSim lx lx' R) (h' : LexerSim lx' lx'' S) :
    LexerSim lx lx'' fun s u => ∃ t, R s t ∧ S t u where
  peekSymbol := h.peekSymbol.trans h'.peekSymbol
  parseSymbol symbol := (h.parseSymbol symbol).trans (h'.parseSymbol symbol)
  parseIdentifier := h.parseIdentifier.trans h'.parseIdentifier
  parseString := h.parseString.trans h'.parseString
  parseInteger := h.parseInteger.trans h'.parseInteger
  currentPosition := fun s u ⟨t, hst, htu⟩ =>
    (h.currentPosition s t hst).trans (h'.currentPosition t u htu)

namespace SimulationLemmas

section

variable {σ τ : Type} {src : Source σ} {src' : Source τ} {R : σ → τ → Prop}
  {Peeked : Nat → σ → τ → Prop}

theorem peekAt_post (h : SourceSim src src' R Peeked) {P : Parser σ → Parser τ → Prop} (k : Nat) :
    SimPost (Lift R) P (fun _ p q => Peeked k p.source q.source) (peekAt src k)
      (peekAt src' k) := by
  rintro p q ⟨hR, hpos, hsym⟩ _
  obtain ⟨ho, hR', hk⟩ := h.peekAt k _ _ hR
  exact ⟨ho, ⟨hR', hpos, hsym⟩, fun _ _ => hk⟩

theorem peekAt_sim (h : SourceSim src src' R Peeked) (k : Nat) :
    Sim (Lift R) (peekAt src k) (peekAt src' k) :=
  (peekAt_post h (P := fun _ _ => True) k).sim fun _ _ _ => trivial

theorem modifyPos_post {P : σ → τ → Prop} (f : DocumentPosition → DocumentPosition) :
    SimPost (Lift R) (fun p q => P p.source q.source) (fun _ p q => P p.source q.source)
      (modifyPos (σ := σ) f) (modifyPos (σ := τ) f) := by
  rintro p q ⟨hR, hpos, hsym⟩ hP
  exact ⟨rfl, ⟨hR, congrArg f hpos, hsym⟩, fun _ _ => hP⟩

theorem skip_post (h : SourceSim src src' R Peeked) :
    SimPost (Lift R) (fun p q => Peeked 0 p.source q.source) (fun _ _ _ => True) (skip src 1)
      (skip src' 1) := by
  rintro p q ⟨hR, hpos, hsym⟩ hk
  exact ⟨rfl, ⟨h.skipSucc 0 _ _ hR hk, hpos, hsym⟩, fun _ _ => trivial⟩

theorem trim_sim (h : SourceSim src src' R Peeked) :
    Sim (Lift R) (trimOpportunity src) (trimOpportunity src') :=
  Sim.modify fun _ _ ⟨hR, hpos, hsym⟩ => ⟨h.trim _ _ hR, hpos, hsym⟩

theorem setSymbol_sim (s : Symbol) :
    Sim (Lift R) (setSymbol (σ := σ) s) (setSymbol (σ := τ) s) :=
  fun _ _ ⟨hR, hpos, _⟩ => ⟨rfl, hR, hpos, rfl⟩

-- The invariant of both loops: the byte under the cursor has just been read.
theorem skipComment_post (h : SourceSim src src' R Peeked) (fuel : Nat) :
    SimPost (Lift R) (fun p q => Peeked 0 p.source q.source)
      (fun _ p q => Peeked 0 p.source q.source) (skipComment src fuel) (skipComment src' fuel) := by
  refine SimPost.loop (P := fun _ (p : Parser σ) (q : Parser τ) => Peeked 0 p.source q.source)
    (fun _ => ?_) fuel ()
  refine SimPost.bind (modifyPos_post _) fun _ => ?_
  refine SimPost.bind (skip_post h) fun _ => ?_
  refine SimPost.bind (peekAt_post h 0) fun c => ?_
  split
  · exact SimPost.pure fun _ _ _ hk => hk
  · exact SimPost.pure fun _ _ _ hk => hk

theorem skipWhitespace_sim (h : SourceSim src src' R Peeked) (fuel : Nat) :
    Sim (Lift R) (skipWhitespace src fuel) (skipWhitespace src' fuel) := by
  refine SimPost.sim (P := fun _ _ => True) (Q := fun _ _ _ => True) ?_ fun _ _ _ => trivial
  refine SimPost.bind (peekAt_post h 0) fun c => ?_
  refine SimPost.bind (Q := fun _ _ _ => True) ?_ fun _ => (trim_sim h).post
  refine SimPost.loop (P := fun _ (p : Parser σ) (q : Parser τ) => Peeked 0 p.source q.source)
    (fun c => ?_) fuel c
  unfold skipWhitespaceStep
  split
  · refine SimPost.bind (modifyPos_post _) fun _ => ?_
    refine SimPost.bind (modifyPos_post _) fun _ => ?_
    split
    · refine SimPost.bind (skipComment_post h fuel) fun _ => ?_
      exact SimPost.pure fun _ _ _ hk => hk
    · refine SimPost.bind (skip_post h) fun _ => ?_
      refine SimPost.bind (peekAt_post h 0) fun _ => ?_
      exact SimPost.pure fun _ _ _ hk => hk
  · exact SimPost.pure fun _ _ _ _ => trivial

-- After the loop the last byte of the run has been read, unless the run is empty.
theorem advancePos_post (h : SourceSim src src' R Peeked) (n i : Nat) :
    SimPost (Lift R) (fun p q => n = 0 → i = 0 ∨ Peeked (i - 1) p.source q.source)
      (fun _ p q => n + i = 0 ∨ Peeked (n + i - 1) p.source q.source) (advancePos src n i)
      (advancePos src' n i) := by
  induction n generalizing i with
  | zero => exact SimPost.pure fun _ _ _ hk => by simpa using hk rfl
  | succ n ih =>
    refine SimPost.bind (peekAt_post h i) fun c => ?_
    refine SimPost.bind (modifyPos_post (P := Peeked i) _) fun _ => ?_
    intro p q hR hk
    have step := ih (i + 1) p q hR fun _ => Or.inr (by simpa using hk)
    rw [show n + 1 + i = n + (i + 1) by omega]
    exact step

theorem advance_sim (h : SourceSim src src' R Peeked) (n : Nat) :
    Sim (Lift R) (advance src n) (advance src' n) := by
  refine SimPost.sim (P := fun _ _ => True) (Q := fun _ _ _ => True) ?_ fun _ _ _ => trivial
  refine SimPost.bind (Q := fun _ p q => n = 0 ∨ Peeked (n - 1) p.source q.source) ?_ fun _ => ?_
  · intro p q hR _
    exact advancePos_post h n 0 p q hR fun _ => Or.inl rfl
  refine SimPost.bind (Q := fun _ _ _ => True) ?_ fun _ => ?_
  · rintro p q ⟨hR, hpos, hsym⟩ hk
    refine ⟨rfl, ⟨?_, hpos, hsym⟩, fun _ _ => trivial⟩
    cases n with
    | zero => exact h.skipZero _ _ hR
    | succ n => exact h.skipSucc n _ _ hR (hk.resolve_left (Nat.succ_ne_zero n))
  refine SimPost.bind (Q := fun _ _ _ => True) ?_ fun _ => (trim_sim h).post
  exact (Sim.modify fun _ _ ⟨hR, hpos, _⟩ => ⟨hR, hpos, rfl⟩).post

theorem scanNumber_sim (h : SourceSim src src' R Peeked) (fuel : Nat) :
    Sim (Lift R) (scanNumber src fuel) (scanNumber src' fuel) := by
  refine Sim.loop (fun off => ?_) fuel 1
  refine Sim.bind (peekAt_sim h off) fun c => ?_
  exact Sim.ite (Sim.ite (Sim.pure _) (Sim.pure _)) (Sim.pure _)

theorem scanWord_sim (h : SourceSim src src' R Peeked) (fuel : Nat) (first : UInt8) :
    Sim (Lift R) (scanWord src fuel first) (scanWord src' fuel first) := by
  refine Sim.loop (fun b => ?_) fuel _
  refine Sim.bind (peekAt_sim h b.1) fun c => ?_
  exact Sim.ite (Sim.pure _) (Sim.pure _)

theorem peekSymbol_sim (h : SourceSim src src' R Peeked) (fuel : Nat) :
    Sim (Lift R) (peekSymbol src fuel) (peekSymbol src' fuel) := by
  refine Sim.bind (Sim.gets fun _ _ hst => hst.2.2) fun cached => ?_
  refine Sim.ite (Sim.pure _) ?_
  refine Sim.bind (skipWhitespace_sim h fuel) fun _ => ?_
  refine Sim.bind (peekAt_sim h 0) fun c => ?_
  refine Sim.ite (setSymbol_sim _) (Sim.ite ?_ ?_)
  · exact Sim.bind (scanNumber_sim h fuel) fun s => setSymbol_sim s
  · split
    · exact setSymbol_sim _
    · refine Sim.ite (setSymbol_sim _) (Sim.ite ?_ (setSymbol_sim _))
      exact Sim.bind (scanWord_sim h fuel c) fun str => setSymbol_sim _

end

section

variable {σ τ : Type} {R : σ → τ → Prop} {peek : Run σ Exception Symbol}
  {peek' : Run τ Exception Symbol} {pos : σ → DocumentPosition} {pos' : τ → DocumentPosition}

theorem unexpected_sim {α : Type} (h : Sim R peek peek') (hpos : ∀ s t, R s t → pos s = pos' t)
    (expected : Symbol) :
    Sim R (unexpected (α := α) peek pos expected) (unexpected peek' pos' expected) := by
  refine Sim.bind h fun found => ?_
  refine Sim.bind (Sim.gets hpos) fun position => ?_
  exact Sim.raise _

theorem unexpectedIn_sim {α : Type} (h : Sim R peek peek') (hpos : ∀ s t, R s t → pos s = pos' t)
    (context : String) :
    Sim R (unexpectedIn (α := α) peek pos context) (unexpectedIn peek' pos' context) := by
  refine Sim.bind h fun found => ?_
  refine Sim.bind (Sim.gets hpos) fun position => ?_
  exact Sim.raise _

theorem expect_sim (h : Sim R peek peek') (hpos : ∀ s t, R s t → pos s = pos' t)
    (expected : Symbol) : Sim R (expect peek pos expected) (expect peek' pos' expected) := by
  refine Sim.bind h fun found => ?_
  exact Sim.ite (unexpected_sim h hpos expected) (Sim.pure ())

end

section

variable {σ τ : Type} {src : Source σ} {src' : Source τ} {R : σ → τ → Prop}
  {Peeked : Nat → σ → τ → Prop}

theorem expectSymbol_sim (h : SourceSim src src' R Peeked) (fuel : Nat) (expected : Symbol) :
    Sim (Lift R) (expect (peekSymbol src fuel) Parser.pos expected)
      (expect (peekSymbol src' fuel) Parser.pos expected) :=
  expect_sim (peekSymbol_sim h fuel) (fun _ _ hst => hst.2.1) expected

theorem parseSymbol_sim (h : SourceSim src src' R Peeked) (fuel : Nat) (symbol : Symbol) :
    Sim (Lift R) (parseSymbol src fuel symbol) (parseSymbol src' fuel symbol) := by
  refine Sim.bind (expectSymbol_sim h fuel symbol) fun _ => ?_
  split
  · exact Sim.bind (advance_sim h _) fun _ => trim_sim h
  · exact Sim.bind (Sim.raise _) fun _ => trim_sim h

theorem parseIdentifier_sim (h : SourceSim src src' R Peeked) (fuel : Nat) :
    Sim (Lift R) (parseIdentifier src fuel) (parseIdentifier src' fuel) := by
  refine Sim.bind (expectSymbol_sim h fuel _) fun _ => ?_
  refine Sim.bind (Sim.loop (fun b => ?_) fuel _) fun r => ?_
  · refine Sim.bind (peekAt_sim h b.1) fun c => ?_
    exact Sim.ite (Sim.pure _) (Sim.pure _)
  · exact Sim.bind (advance_sim h r.1) fun _ => Sim.pure r.2

theorem parseString_sim (h : SourceSim src src' R Peeked) (fuel : Nat) :
    Sim (Lift R) (parseString src fuel) (parseString src' fuel) := by
  refine Sim.bind (expectSymbol_sim h fuel _) fun _ => ?_
  refine Sim.bind (peekAt_sim h 0) fun delim => ?_
  refine Sim.bind (Sim.loop (fun b => ?_) fuel _) fun r => ?_
  · refine Sim.bind (peekAt_sim h b.1) fun c => ?_
    refine Sim.ite (Sim.pure _) (Sim.ite ?_ (Sim.pure _))
    exact Sim.bind (peekAt_sim h (b.1 + 1)) fun _ => Sim.pure _
  · exact Sim.bind (advance_sim h r.1) fun _ => Sim.pure r.2

theorem parseInteger_sim (h : SourceSim src src' R Peeked) (fuel : Nat) :
    Sim (Lift R) (parseInteger src fuel) (parseInteger src' fuel) := by
  refine Sim.bind (expectSymbol_sim h fuel _) fun _ => ?_
  refine Sim.bind (peekAt_sim h 0) fun first => ?_
  refine Sim.bind (Sim.loop (fun b => ?_) fuel _) fun r => ?_
  · refine Sim.bind (peekAt_sim h b.1) fun c => ?_
    exact Sim.ite (Sim.pure _) (Sim.pure _)
  · exact Sim.bind (advance_sim h r.1) fun _ => Sim.pure _

end

section

variable {σ τ : Type} {lx : Lexer σ} {lx' : Lexer τ} {R : σ → τ → Prop}

theorem position_sim (h : LexerSim lx lx' R) :
    Sim R (gets lx.currentPosition : Run σ Exception DocumentPosition) (gets lx'.currentPosition) :=
  Sim.gets h.currentPosition

theorem unexpectedSymbol_sim {α : Type} (h : LexerSim lx lx' R) (context : String) :
    Sim R (unexpectedIn (α := α) lx.peekSymbol lx.currentPosition context)
      (unexpectedIn lx'.peekSymbol lx'.currentPosition context) :=
  unexpectedIn_sim h.peekSymbol h.currentPosition context

theorem parseQualifiedIdentifier_sim (h : LexerSim lx lx' R) (fuel : Nat) :
    Sim R (parseQualifiedIdentifier lx fuel) (parseQualifiedIdentifier lx' fuel) := by
  refine Sim.bind h.parseIdentifier fun tmp => ?_
  refine Sim.loop (fun b => ?_) fuel _
  refine Sim.bind h.peekSymbol fun s => Sim.ite ?_ (Sim.pure _)
  refine Sim.bind (h.parseSymbol _) fun _ => ?_
  exact Sim.bind h.parseIdentifier fun _ => Sim.pure _

theorem parseType_sim (h : LexerSim lx lx' R) (fuel : Nat) :
    Sim R (parseType lx fuel) (parseType lx' fuel) := by
  refine Sim.bind (parseQualifiedIdentifier_sim h fuel) fun identifier => ?_
  refine Sim.bind h.peekSymbol fun s => Sim.ite ?_ (Sim.pure _)
  refine Sim.bind (h.parseSymbol _) fun _ => ?_
  refine Sim.bind h.parseInteger fun size => ?_
  exact Sim.bind (h.parseSymbol _) fun _ => Sim.pure _

theorem parseInclude_sim (h : LexerSim lx lx' R) : Sim R (parseInclude lx) (parseInclude lx') := by
  refine Sim.bind (position_sim h) fun origin => ?_
  refine Sim.bind (h.parseSymbol _) fun _ => ?_
  exact Sim.bind h.parseString fun _ => Sim.pure _

theorem parseFields_sim {α : Type} (h : LexerSim lx lx' R) (fuel : Nat)
    {item : Run σ Exception α} {item' : Run τ Exception α} (hitem : Sim R item item') :
    Sim R (parseFields lx fuel item) (parseFields lx' fuel item') := by
  refine Sim.loop (fun fields => ?_) fuel _
  refine Sim.bind h.peekSymbol fun s => Sim.ite ?_ (Sim.pure _)
  exact Sim.bind hitem fun _ => Sim.pure _

theorem parseStructField_sim (h : LexerSim lx lx' R) (fuel : Nat) :
    Sim R (parseStructField lx fuel) (parseStructField lx' fuel) := by
  refine Sim.bind (position_sim h) fun origin => ?_
  refine Sim.bind h.parseIdentifier fun identifier => ?_
  refine Sim.bind (h.parseSymbol _) fun _ => ?_
  exact Sim.bind (parseType_sim h fuel) fun _ => Sim.pure _

theorem parseStruct_sim (h : LexerSim lx lx' R) (fuel : Nat) :
    Sim R (parseStruct lx fuel) (parseStruct lx' fuel) := by
  refine Sim.bind (position_sim h) fun origin => ?_
  refine Sim.bind (h.parseSymbol _) fun _ => ?_
  refine Sim.bind h.parseIdentifier fun identifier => ?_
  refine Sim.bind (h.parseSymbol _) fun _ => ?_
  refine Sim.bind (parseFields_sim h fuel (parseStructField_sim h fuel)) fun fields => ?_
  exact Sim.bind (h.parseSymbol _) fun _ => Sim.pure _

theorem parseMappingField_sim (h : LexerSim lx lx' R) :
    Sim R (parseMappingField lx) (parseMappingField lx') := by
  refine Sim.bind (position_sim h) fun origin => ?_
  refine Sim.bind h.parseIdentifier fun identifier => ?_
  refine Sim.bind (h.parseSymbol _) fun _ => ?_
  exact Sim.bind h.parseString fun _ => Sim.pure _

theorem parseMapping_sim (h : LexerSim lx lx' R) (fuel : Nat) :
    Sim R (parseMapping lx fuel) (parseMapping lx' fuel) := by
  refine Sim.bind (position_sim h) fun origin => ?_
  refine Sim.bind (h.parseSymbol _) fun _ => ?_
  refine Sim.bind h.parseIdentifier fun structId => ?_
  refine Sim.bind (h.parseSymbol _) fun _ => ?_
  refine Sim.bind (parseQualifiedIdentifier_sim h fuel) fun mapCategory => ?_
  refine Sim.bind (h.parseSymbol _) fun _ => ?_
  refine Sim.bind (parseFields_sim h fuel (parseMappingField_sim h)) fun fields => ?_
  exact Sim.bind (h.parseSymbol _) fun _ => Sim.pure _

theorem parseEncodingName_sim (h : LexerSim lx lx' R) :
    Sim R (parseEncodingName lx) (parseEncodingName lx') := by
  refine Sim.bind h.peekSymbol fun s => Sim.ite ?_ (Sim.pure _)
  exact Sim.bind (h.parseSymbol _) fun _ => h.parseIdentifier

theorem parseEncodingField_sim (h : LexerSim lx lx' R) :
    Sim R (parseEncodingField lx) (parseEncodingField lx') := by
  refine Sim.bind (position_sim h) fun origin => ?_
  refine Sim.bind h.parseIdentifier fun identifier => ?_
  exact Sim.bind (parseEncodingName_sim h) fun _ => Sim.pure _

theorem parseEncodingDeltaBlock_sim (h : LexerSim lx lx' R) (fuel : Nat)
    {node : Run σ Exception AstEncodingNode} {node' : Run τ Exception AstEncodingNode}
    (hnode : Sim R node node') :
    Sim R (parseEncodingDeltaBlock lx fuel node) (parseEncodingDeltaBlock lx' fuel node') := by
  refine Sim.bind (position_sim h) fun origin => ?_
  refine Sim.bind (h.parseSymbol _) fun _ => ?_
  refine Sim.bind h.peekSymbol fun s => ?_
  split
  · exact Sim.bind hnode fun _ => Sim.pure _
  · refine Sim.bind (h.parseSymbol _) fun _ => ?_
    refine Sim.bind (parseFields_sim h fuel hnode) fun fields => ?_
    exact Sim.bind (h.parseSymbol _) fun _ => Sim.pure _
  · exact unexpectedSymbol_sim h _

theorem parseEncodingNode_sim (h : LexerSim lx lx' R) (fuel depth : Nat) :
    Sim R (parseEncodingNode lx fuel depth) (parseEncodingNode lx' fuel depth) := by
  induction depth with
  | zero => exact fun _ _ hst => ⟨rfl, hst⟩
  | succ depth ih =>
    refine Sim.bind h.peekSymbol fun s => ?_
    split
    · exact parseEncodingDeltaBlock_sim h fuel ih
    · exact parseEncodingField_sim h
    · exact unexpectedSymbol_sim h _

theorem parseEncoding_sim (h : LexerSim lx lx' R) (fuel : Nat) :
    Sim R (parseEncoding lx fuel) (parseEncoding lx' fuel) := by
  refine Sim.bind (position_sim h) fun origin => ?_
  refine Sim.bind (h.parseSymbol _) fun _ => ?_
  refine Sim.bind h.parseIdentifier fun structId => ?_
  refine Sim.bind (parseEncodingName_sim h) fun encoId => ?_
  refine Sim.bind (h.parseSymbol _) fun _ => ?_
  refine Sim.bind (parseFields_sim h fuel (parseEncodingNode_sim h fuel fuel)) fun fields => ?_
  exact Sim.bind (h.parseSymbol _) fun _ => Sim.pure _

end

end SimulationLemmas

open SimulationLemmas

/-- A relation kept by the operations of two sources is kept by the lexical
functions over them. -/
theorem scanner_sim {σ τ : Type} {src : Source σ} {src' : Source τ} {R : σ → τ → Prop}
    {Peeked : Nat → σ → τ → Prop} (h : SourceSim src src' R Peeked) (fuel : Nat) :
    LexerSim (scanner src fuel) (scanner src' fuel) (Lift R) where
  peekSymbol := peekSymbol_sim h fuel
  parseSymbol := parseSymbol_sim h fuel
  parseIdentifier := parseIdentifier_sim h fuel
  parseString := parseString_sim h fuel
  parseInteger := parseInteger_sim h fuel
  currentPosition := fun _ _ hst => hst.2.1

/-- Lexers that agree on related states give parsers that agree. -/
theorem parseDocument_sim {σ τ : Type} {lx : Lexer σ} {lx' : Lexer τ} {R : σ → τ → Prop}
    (h : LexerSim lx lx' R) (fuel : Nat) :
    Sim R (parseDocument lx fuel) (parseDocument lx' fuel) := by
  refine Sim.bind (position_sim h) fun origin => ?_
  refine Sim.bind (Sim.loop (fun includes => ?_) fuel _) fun includes => ?_
  · refine Sim.bind h.peekSymbol fun s => Sim.ite ?_ (Sim.pure _)
    exact Sim.bind (parseInclude_sim h) fun _ => Sim.pure _
  refine Sim.bind (Sim.bind h.peekSymbol fun s => Sim.ite ?_ (Sim.pure _)) fun space => ?_
  · exact Sim.bind (h.parseSymbol _) fun _ => parseQualifiedIdentifier_sim h fuel
  refine Sim.loop (fun root => ?_) fuel _
  refine Sim.bind h.peekSymbol fun s => ?_
  split
  · exact Sim.bind (parseStruct_sim h fuel) fun _ => Sim.pure _
  · exact Sim.bind (parseMapping_sim h fuel) fun _ => Sim.pure _
  · exact Sim.bind (parseEncoding_sim h fuel) fun _ => Sim.pure _
  · exact Sim.pure _
  · exact unexpectedSymbol_sim h _

end Ian.Happy
