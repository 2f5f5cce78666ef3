import Ian.Happy.Correctness

/-!
# Where the parser stands in its stream

A `TokenState` says which tokens are still to come, not where in the stream the
cursor is. Here each token is given the offset of its first byte (`placed`),
and `PlaceRel` says that the parser over a stream in memory stands at one of
these offsets. `midway` puts it together for the parser over its own buffer,
from any state in which no symbol is cached: a grammar function does over the
buffer what it does over the token sequence of the text that is still to be
read, and how much of that text it has read can be told from the tokens left.
-/

namespace Ian.Happy

open Ian.Lib Run

/-- A token and the offset of its first byte. -/
structure Place where
  token : Token
  offset : Nat
deriving DecidableEq, Repr

/-- How many bytes of blanks the text starts with. -/
def blankLength (text : List UInt8) : Nat := (skipBlank false ⟨[], 1, 0⟩ text).2

/-- The tokens with their offsets; `text` starts at offset `n`. -/
def place : Nat → List UInt8 → List Token → List Place
  | _, _, [] => []
  | n, text, tok :: toks =>
    let rest := text.drop (blankLength text)
    ⟨tok, n + blankLength text⟩ ::
      place (n + blankLength text + (lexeme rest).2) (rest.drop (lexeme rest).2) toks

/-- The places of the tokens of a text that starts at offset `n`. -/
def placed (n : Nat) (pos : DocumentPosition) (text : List UInt8) : List Place :=
  place n text (lex pos text)

namespace PlacingLemmas

open LexingLemmas ScanningLemmas BufferLemmas

variable {n : Nat} {pos : DocumentPosition} {text s : List UInt8}

theorem skipBlank_length (comment : Bool) (pos pos' : DocumentPosition) (text : List UInt8) :
    (skipBlank comment pos text).2 = (skipBlank comment pos' text).2 := by
  induction text generalizing comment pos pos' with
  | nil => rfl
  | cons c cs ih =>
    unfold skipBlank
    split
    · exact congrArg Nat.succ (ih _ _ _)
    split
    · exact congrArg Nat.succ (ih _ _ _)
    split
    · exact congrArg Nat.succ (ih _ _ _)
    split
    · exact congrArg Nat.succ (ih _ _ _)
    split
    · exact congrArg Nat.succ (ih _ _ _)
    · rfl

theorem blankLength_eq (pos : DocumentPosition) (text : List UInt8) :
    (skipBlank false pos text).2 = blankLength text := skipBlank_length _ _ _ _

theorem place_token (n : Nat) (text : List UInt8) (toks : List Token) :
    (place n text toks).map Place.token = toks := by
  induction toks generalizing n text with
  | nil => rfl
  | cons tok toks ih =>
    rw [place, List.map_cons, ih]

theorem placed_token (n : Nat) (pos : DocumentPosition) (text : List UInt8) :
    (placed n pos text).map Place.token = lex pos text := place_token _ _ _

theorem placed_length (n : Nat) (pos : DocumentPosition) (text : List UInt8) :
    (placed n pos text).length = (lex pos text).length := by
  rw [← placed_token n pos text, List.length_map]

theorem placed_head (n : Nat) (pos : DocumentPosition) (text : List UInt8) :
    ∃ tok rest, placed n pos text = ⟨tok, n + blankLength text⟩ :: rest := by
  obtain ⟨stop, rest, hlex⟩ := lex_head pos text
  exact ⟨⟨_, _, stop⟩, place _ _ rest, by rw [placed, hlex, place]⟩

theorem blankLength_skip (text : List UInt8) :
    blankLength (text.drop (blankLength text)) = 0 := by
  have hidem := congrArg Prod.snd (skipBlank_idem false ⟨[], 1, 0⟩ text)
  rw [blankLength_eq] at hidem
  exact hidem

/-- Skipping blanks changes no place. -/
theorem placed_skip (n : Nat) (pos : DocumentPosition) (text : List UInt8) :
    placed (n + blankLength text) (skipBlank false pos text).1 (text.drop (blankLength text)) =
      placed n pos text := by
  obtain ⟨stop, rest, hlex⟩ := lex_head pos text
  have hskip := lex_skip pos text
  rw [blankLength_eq] at hskip
  rw [placed, placed, hskip, hlex, place, place, blankLength_skip, List.drop_zero, Nat.add_zero]

/-- At the start of a token, the places are its place and those after it. -/
theorem placed_cons (h : blankLength text = 0) (hlen : (lexeme text).2 ≠ 0) (n : Nat)
    (pos : DocumentPosition) :
    placed n pos text = ⟨⟨(lexeme text).1, pos, pos.over (text.take (lexeme text).2)⟩, n⟩ ::
      placed (n + (lexeme text).2) (pos.over (text.take (lexeme text).2))
        (text.drop (lexeme text).2) := by
  have hlex : lex pos text = _ := lex_cons (by rw [blankLength_eq, h]) hlen
  rw [placed, hlex, place, h, List.drop_zero, Nat.add_zero, placed]

/-- The first token of a text and what the tokens after it are. -/
theorem lex_inv {tok : Token} {toks : List Token} (h : lex pos text = tok :: toks) :
    let rest := text.drop (blankLength text)
    tok.lexeme = (lexeme rest).1 ∧ tok.start = (skipBlank false pos text).1 ∧
      tok.stop = tok.start.over (rest.take (lexeme rest).2) ∧
      ((lexeme rest).2 = 0 ∧ toks = [] ∨
        (lexeme rest).2 ≠ 0 ∧ toks = lex tok.stop (rest.drop (lexeme rest).2)) := by
  rw [lex_eq, blankLength_eq] at h
  dsimp only at h ⊢
  split at h
  · next hlen =>
    cases h
    exact ⟨rfl, rfl, rfl, Or.inl ⟨hlen, rfl⟩⟩
  · next hlen =>
    cases h
    exact ⟨rfl, rfl, rfl, Or.inr ⟨hlen, rfl⟩⟩

/-- What skipping blanks and taking a token preserve holds at every place: `P n`
is about the text from offset `n` on and the position there. -/
theorem placed_forall {P : Nat → DocumentPosition → List UInt8 → Prop}
    (hblank : ∀ n pos text, P n pos text →
      P (n + blankLength text) (skipBlank false pos text).1 (text.drop (blankLength text)))
    (hnext : ∀ n pos text, P n pos text → (lexeme text).2 ≠ 0 →
      P (n + (lexeme text).2) (pos.over (text.take (lexeme text).2)) (text.drop (lexeme text).2))
    (h : P n pos text) : ∀ next ∈ placed n pos text,
      ∃ rest, P next.offset next.token.start rest ∧ next.token.lexeme = (lexeme rest).1 := by
  obtain ⟨toks, htoks⟩ : ∃ toks, lex pos text = toks := ⟨_, rfl⟩
  rw [placed, htoks]
  induction toks generalizing n pos text with
  | nil => exact fun _ h => nomatch h
  | cons tok toks ih =>
    obtain ⟨hlexeme, hstart, hstop, hrest⟩ := lex_inv htoks
    have hfirst := hblank n pos text h
    intro next hmem
    rcases List.mem_cons.mp hmem with rfl | hmem
    · refine ⟨text.drop (blankLength text), ?_, hlexeme⟩
      rw [hstart]
      exact hfirst
    · rcases hrest with ⟨_, rfl⟩ | ⟨hlen, hmore⟩
      · cases hmem
      · have hthen := hnext _ _ _ hfirst hlen
        rw [← hstart, ← hstop] at hthen
        exact ih hthen hmore.symm next hmem

/-- At its offset the text has the token. -/
theorem placed_lexeme {next : Place} (h : next ∈ placed 0 pos text) :
    next.token.lexeme = (lexeme (text.drop next.offset)).1 := by
  obtain ⟨_, rfl, hlexeme⟩ := placed_forall (P := fun n _ rest => rest = text.drop n)
    (fun n _ rest hrest => by rw [hrest, List.drop_drop])
    (fun n _ rest hrest _ => by rw [hrest, List.drop_drop]) List.drop_zero.symm next h
  exact hlexeme

/-- The places that are still to come for a parser. -/
def places (p : Parser Memory) : List Place :=
  placed p.source.cursor p.pos p.source.unread

/-- The parser stands at one of the places `all`. -/
structure PlaceRel (all : List Place) (s : List UInt8) (p : Parser Memory) (t : TokenState) :
    Prop where
  rel : TokenRel s p t
  suffix : places p <:+ all

theorem places_peeked (p : Parser Memory) : places (peeked p) = places p := by
  by_cases hinv : p.nextSymbol = .invalid
  · have hskip := placed_skip p.source.cursor p.pos p.source.unread
    rw [places, peeked_unread p hinv, peeked_invalid hinv]
    dsimp only [moved]
    rw [blankLength_eq]
    exact hskip
  · rw [peeked, if_neg hinv]

theorem places_consumed {p : Parser Memory} {t : TokenState} (h : AtToken s p t)
    (hpos : (lexeme p.source.unread).2 ≠ 0) : places (consumed p) <:+ places p := by
  have hcons := placed_cons ((blankLength_eq p.pos _).symm.trans h.start) hpos p.source.cursor p.pos
  rw [places, places, hcons, consumed_unread]
  exact List.suffix_cons _ _

theorem placeRel_follows (all : List Place) (s : List UInt8) : Follows s (PlaceRel all s) where
  rel _ _ h := h.rel
  peek p t h := ⟨(tokenRel_follows s).peek p t h.rel, by rw [places_peeked]; exact h.suffix⟩
  next p t h hat hpos :=
    ⟨(tokenRel_follows s).next p t h.rel hat hpos, (places_consumed hat hpos).trans h.suffix⟩

end PlacingLemmas

open PlacingLemmas

/-! ## From the middle of a stream -/

/-- The buffer and the reader behind it hold `text`, which is still to be read. -/
def Holds {ρ : Type} (rd : StreamReader ρ) (b : Buffer ρ) (text : List UInt8) : Prop :=
  ∃ und, Delivers rd b.reader und ∧ b.bufferOffset ≤ b.buffer.length ∧
    b.buffer.drop b.bufferOffset ++ und = text

theorem holds_init {ρ : Type} {rd : StreamReader ρ} {r : ρ} {s : List UInt8}
    (h : Delivers rd r s) : Holds rd (Buffer.init r) s :=
  ⟨s, h, Nat.le_refl _, rfl⟩

/-- Code that is written over any lexer keeps the relations between lexers. -/
def Uniform {α : Type} (m : (σ : Type) → Lexer σ → Run σ Exception α) : Prop :=
  ∀ (σ τ : Type) (lx : Lexer σ) (lx' : Lexer τ) (R : σ → τ → Prop), LexerSim lx lx' R →
    Sim R (m σ lx) (m τ lx')

/-- The parser has read `n` bytes of `text` since it stood at `start`, and stands
at the place `t` of the token sequence. -/
structure Stands {ρ : Type} (rd : StreamReader ρ) (start : DocumentPosition) (text : List UInt8)
    (n : Nat) (p : Parser (Buffer ρ)) (t : TokenState) : Prop where
  inside : n ≤ text.length
  holds : Holds rd p.source (text.drop n)
  pos : t.pos = p.pos
  toks : t.toks = lex p.pos (text.drop n)
  suffix : placed n p.pos (text.drop n) <:+ placed 0 start text
  cached : p.nextSymbol = .invalid ∨
    blankLength (text.drop n) = 0 ∧ p.nextSymbol = (headLexeme t.toks).symbol

namespace PlacingLemmas

open BufferLemmas ScanningLemmas

variable {ρ : Type} {rd : StreamReader ρ} {text : List UInt8}

theorem bufferRel_holds {b : Buffer ρ} (h : Holds rd b text) :
    BufferRel rd text (Trace.init b) ⟨text, 0⟩ where
  text := rfl
  cursor := rfl
  unread := by
    obtain ⟨und, hd, hin, rfl⟩ := h
    refine ⟨und, hd, ?_, List.drop_append_of_le_length hin, Or.inl hin⟩
    rw [List.length_append]
    exact Nat.le_add_left _ _
  inside := fun _ => h.choose_spec.2.1
  sound := by
    intro _ v hv
    obtain ⟨und, _, hin, hall⟩ := h
    rw [List.mem_singleton.mp hv]
    exact ⟨hin, und, hall⟩

theorem holds_bufferRel {t : Trace (Buffer ρ)} {m : Memory} (h : BufferRel rd text t m)
    (hin : m.cursor ≤ text.length) : Holds rd t.state (text.drop m.cursor) := by
  obtain ⟨und, hd, _, hall, _⟩ := h.unread
  have hinside := h.inside hin
  exact ⟨und, hd, hinside, by rw [← hall, List.drop_append_of_le_length hinside]⟩

/-- The parser over its buffer and the parser over the stream `s` in memory are
at the same place. -/
def Mirrors (rd : StreamReader ρ) (s : List UInt8) (p : Parser (Buffer ρ)) (q : Parser Memory) :
    Prop :=
  ∃ tr, Lift (fun b t => t.state = b) p tr ∧ Lift (BufferRel rd s) tr q

theorem scanner_mirrors (rd : StreamReader ρ) (s : List UInt8) {fuel : Nat}
    (hfuel : s.length < fuel) : LexerSim (scanner (bufferSource rd fuel) fuel)
      (scanner memorySource fuel) (Mirrors rd s) :=
  (scanner_sim (traced_sim (bufferSource rd fuel)) fuel).trans
    (scanner_sim (buffer_memory_sim rd s hfuel) fuel)

theorem mirrors_of_holds {p : Parser (Buffer ρ)} (h : Holds rd p.source text) :
    Mirrors rd text p ⟨⟨text, 0⟩, p.pos, p.nextSymbol⟩ :=
  ⟨⟨Trace.init p.source, p.pos, p.nextSymbol⟩, ⟨rfl, rfl, rfl⟩, bufferRel_holds h, rfl, rfl⟩

theorem Mirrors.holds {p : Parser (Buffer ρ)} {q : Parser Memory} (h : Mirrors rd text p q)
    (hin : q.source.cursor ≤ text.length) : Holds rd p.source (text.drop q.source.cursor) := by
  obtain ⟨tr, ⟨hstate, -, -⟩, hrel, -, -⟩ := h
  exact hstate ▸ holds_bufferRel hrel hin

theorem Mirrors.pos {p : Parser (Buffer ρ)} {q : Parser Memory} (h : Mirrors rd text p q) :
    p.pos = q.pos := by
  obtain ⟨tr, ⟨-, hpos, -⟩, -, hpos', -⟩ := h
  exact hpos.trans hpos'

theorem Mirrors.nextSymbol {p : Parser (Buffer ρ)} {q : Parser Memory} (h : Mirrors rd text p q) :
    p.nextSymbol = q.nextSymbol := by
  obtain ⟨tr, ⟨-, -, hsym⟩, -, -, hsym'⟩ := h
  exact hsym.trans hsym'

theorem stands_placeRel {p : Parser (Buffer ρ)} {m : Parser Memory} {t : TokenState}
    {pos : DocumentPosition} (hpm : Mirrors rd text p m)
    (hmt : PlaceRel (placed 0 pos text) text m t) : Stands rd pos text m.source.cursor p t := by
  have hunread : m.source.unread = text.drop m.source.cursor := by
    rw [Memory.unread, hmt.rel.text]
  have htoks := hmt.rel.toks
  have hsuffix := hmt.suffix
  rw [hunread, ← hpm.pos] at htoks
  rw [places, hunread, ← hpm.pos] at hsuffix
  refine ⟨hmt.rel.inside, hpm.holds hmt.rel.inside, hmt.rel.pos.trans hpm.pos.symm, htoks, hsuffix,
    ?_⟩
  have hcached := hmt.rel.cached
  rw [hunread, ← hpm.pos, ← hpm.nextSymbol] at hcached
  rcases hcached with hinvalid | ⟨hzero, hcache⟩
  · exact Or.inl hinvalid
  · rw [blankLength_eq] at hzero
    obtain ⟨stop, rest, hhead⟩ := lex_head p.pos (text.drop m.source.cursor)
    refine Or.inr ⟨hzero, hcache.trans ?_⟩
    rw [htoks, hhead, blankLength_eq, hzero]
    rfl

end PlacingLemmas

/-- A grammar function over the buffer does what it does over the token
sequence of the text still to be read. -/
theorem midway {ρ α : Type} {rd : StreamReader ρ} {m : (σ : Type) → Lexer σ → Run σ Exception α}
    (hm : Uniform m) {p : Parser (Buffer ρ)} {text : List UInt8} {fuel : Nat}
    (h : Holds rd p.source text) (hsym : p.nextSymbol = .invalid) (hfuel : text.length < fuel) :
    let done := (m _ (scanner (bufferSource rd fuel) fuel)).run p
    let told := (m _ tokenLexer).run ⟨p.pos, lex p.pos text⟩
    done.1 = told.1 ∧ ∃ n, Stands rd p.pos text n done.2 told.2 := by
  intro done told
  obtain ⟨hout, hpm⟩ := hm _ _ _ _ _ (scanner_mirrors rd text hfuel) p _ (mirrors_of_holds h)
  obtain ⟨hout', hmt⟩ := hm _ _ _ _ _
    (scanner_walk_sim (placeRel_follows (placed 0 p.pos text) text) hfuel)
    ⟨⟨text, 0⟩, p.pos, p.nextSymbol⟩ ⟨p.pos, lex p.pos text⟩
    ⟨⟨rfl, Nat.zero_le _, rfl, rfl, Or.inl hsym⟩, List.suffix_refl _⟩
  exact ⟨hout.trans hout', _, stands_placeRel hpm hmt⟩

/-- The whole parser over the buffer does what it does over the token sequence. -/
theorem parse_stands {ρ : Type} {rd : StreamReader ρ} {r : ρ} {s : List UInt8}
    (h : Delivers rd r s) (filename : List UInt8) {fuel : Nat} (hfuel : s.length < fuel) :
    let done := parseFrom (bufferSource rd fuel) (Buffer.init r) filename fuel
    let told := (parseDocument tokenLexer fuel).run ⟨⟨filename, 1, 0⟩, tokens filename s⟩
    done.1 = told.1 ∧ ∃ n, Stands rd ⟨filename, 1, 0⟩ s n done.2 told.2 :=
  midway (fun _ _ _ _ _ hsim => parseDocument_sim hsim fuel)
    (p := Parser.init filename (Buffer.init r)) (holds_init h) rfl hfuel

namespace PlacingLemmas

open ScanningLemmas

variable {ρ : Type} {rd : StreamReader ρ} {pos : DocumentPosition} {text : List UInt8} {n : Nat}
  {p : Parser (Buffer ρ)} {t : TokenState}

theorem lex_length (pos : DocumentPosition) (text : List UInt8) :
    (lex pos text).length ≤ text.length + 1 := CorrectnessLemmas.lexUpTo_length _ _ _

/-- A grammar function that decides its rule does so over the buffer, too. -/
theorem midway_answer {α : Type} {m : (σ : Type) → Lexer σ → Run σ Exception α} {fuel : Nat}
    {F hang : List Token → Prop} {g : Rule Token α} (hm : Uniform m)
    (hdecides : TokenDecides fuel (fun _ => True) F g hang (m _ tokenLexer))
    {p : Parser (Buffer ρ)} {text : List UInt8} (h : Holds rd p.source text)
    (hsym : p.nextSymbol = .invalid) (hfuel : text.length + 2 ≤ fuel) :
    ∃ n t, Answer TokenState.toks IsParse F g hang (lex p.pos text)
        (((m _ (scanner (bufferSource rd fuel) fuel)).run p).1, t) ∧
      Stands rd p.pos text n ((m _ (scanner (bufferSource rd fuel) fuel)).run p).2 t := by
  have hshort : (lex p.pos text).length < fuel := by
    have hlen := lex_length p.pos text
    omega
  obtain ⟨hrun, n, hstands⟩ := midway hm h hsym
    (Nat.lt_of_lt_of_le (Nat.lt_add_of_pos_right Nat.two_pos) hfuel)
  have hans := hdecides ⟨p.pos, lex p.pos text⟩ trivial hshort
  refine ⟨n, _, ?_, hstands⟩
  rw [hrun]
  exact hans

/-- Which places are still to come can be told from how many tokens are. -/
theorem stands_places (h : Stands rd pos text n p t) {all : List Place}
    (hall : all <:+ placed 0 pos text) (hlen : all.length = t.toks.length) :
    placed n p.pos (text.drop n) = all := by
  refine (List.suffix_of_suffix_length_le h.suffix hall ?_).eq_of_length ?_
  · rw [placed_length, ← h.toks, hlen]
  · rw [placed_length, ← h.toks, hlen]

/-- With a symbol cached, the cursor is at the place of the next token. -/
theorem stands_place (h : Stands rd pos text n p t) (hsym : p.nextSymbol ≠ .invalid) :
    ∃ next after, next :: after <:+ placed 0 pos text ∧ next.offset = n ∧
      next.token.start = p.pos ∧ p.nextSymbol = next.token.lexeme.symbol ∧
      t.toks = (next :: after).map Place.token := by
  obtain ⟨hzero, hsymbol⟩ := h.cached.resolve_left hsym
  obtain ⟨stop, rest, hlex⟩ := lex_head p.pos (text.drop n)
  rw [skipBlank_zero ((blankLength_eq p.pos _).trans hzero), List.drop_zero] at hlex
  have hplaced : placed n p.pos (text.drop n) =
      ⟨⟨(lexeme (text.drop n)).1, p.pos, stop⟩, n⟩ :: place (n + (lexeme (text.drop n)).2)
        ((text.drop n).drop (lexeme (text.drop n)).2) rest := by
    rw [placed, hlex, place, hzero, Nat.add_zero, List.drop_zero]
  refine ⟨_, _, hplaced ▸ h.suffix, rfl, rfl, ?_, ?_⟩
  · rw [hsymbol, h.toks, hlex]
    rfl
  · rw [← hplaced, placed_token, h.toks]

/-- With a symbol cached, the cursor is at the offset of the next token. -/
theorem stands_offset (h : Stands rd pos text n p t) (hsym : p.nextSymbol ≠ .invalid)
    {next : Place} {all : List Place} (hall : next :: all <:+ placed 0 pos text)
    (hlen : all.length + 1 = t.toks.length) : n = next.offset := by
  have hplaces := stands_places h hall hlen
  obtain ⟨tok, rest, hhead⟩ := placed_head n p.pos (text.drop n)
  rcases h.cached with hinv | ⟨hzero, _⟩
  · exact absurd hinv hsym
  · rw [hhead, hzero] at hplaces
    exact congrArg Place.offset (List.cons.inj hplaces).1

end PlacingLemmas

end Ian.Happy
