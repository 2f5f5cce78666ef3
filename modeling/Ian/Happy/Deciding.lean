import Ian.Happy.Grammar

/-!
# The grammar functions decide the reference grammar

Over a token sequence, every grammar function of the parser decides its rule,
one symbol of lookahead being enough: the choice it makes at each symbol is the
only one a derivation can make, and it stops each list where a derivation must.
The follow conditions say which symbol must not come next: a dot or a bracket
after a type, a colon after an encoding name.

The only hang is at a string literal that is never closed.
-/

namespace Ian.Happy

open Ian.Lib Rule

/-- The exception is a `ParseException`. -/
def IsParse (e : Exception) : Prop := ∃ position message, e = .parse position message

/-- `Decides` for parsers over a token sequence. -/
abbrev TokenDecides {α : Type} (n : Nat) (P : TokenState → Prop) (F : List Token → Prop)
    (g : Rule Token α) (hang : List Token → Prop) (m : Run TokenState Exception α) : Prop :=
  Decides TokenState.toks IsParse n P F g hang m

/-- The symbol the parser sees next. -/
def nextSymbol (toks : List Token) : Symbol := (headLexeme toks).symbol

/-- The position has been moved to the next token by `peek_symbol`. -/
def Peeked (t : TokenState) : Prop := t.pos = startOf t.toks

namespace DecidingLemmas

/-! ## Terminals -/

theorem terminal_head {α : Type} {take : Lexeme → Option α} {toks rest : List Token} {a : α}
    (h : terminal take toks a rest) : take (headLexeme toks) = some a := by
  obtain ⟨tok, rfl, htok⟩ := h
  exact htok

theorem fixed_next {symbol : Symbol} {toks rest : List Token} {u : Unit}
    (h : fixedRule symbol toks u rest) : nextSymbol toks = symbol := by
  have htake := terminal_head h
  unfold Lexeme.takeFixed at htake
  split at htake
  · next heq => rw [nextSymbol, heq, Lexeme.symbol]
  · cases htake

theorem identifier_next {toks rest : List Token} {name : AstIdentifier}
    (h : identifierRule toks name rest) : nextSymbol toks = .identifier := by
  have htake := terminal_head h
  unfold Lexeme.takeIdentifier at htake
  split at htake
  · next heq => rw [nextSymbol, heq, Lexeme.symbol]
  · cases htake

theorem terminal_takes {α : Type} (take : Lexeme → Option α) : Takes 1 (terminal take) := by
  rintro toks a rest ⟨tok, rfl, _⟩
  exact ⟨List.suffix_cons _ _, Nat.le_refl _⟩

theorem start_takes : Takes 0 startRule := by
  rintro toks origin rest ⟨_, rfl⟩
  exact ⟨List.suffix_refl _, Nat.le_refl _⟩

variable {n : Nat} {P : TokenState → Prop}

/-- Taking a token decides its terminal. -/
theorem take_decides {α : Type} (expected : Symbol) (take : Lexeme → Option α)
    (heof : take .eof = none) (hopen : take .openString = none) :
    TokenDecides n P (fun _ => True) (terminal take)
      (fun toks => expected = .string ∧ OpenString toks) (tokenTake expected take) := by
  intro t _ _
  cases htake : take t.head with
  | some a =>
    obtain ⟨tok, rest, htoks⟩ : ∃ tok rest, t.toks = tok :: rest := by
      cases htoks : t.toks with
      | nil =>
        rw [TokenState.head, htoks, headLexeme, heof] at htake
        cases htake
      | cons tok rest => exact ⟨tok, rest, rfl⟩
    have hnext : t.peek.next.toks = rest := by
      simp only [TokenState.next, TokenState.peek, htoks]
    rw [tokenTake_some htake]
    refine .ok ?_ ?_ ?_
    · rw [hnext, htoks]
      rw [TokenState.head, htoks] at htake
      exact ⟨tok, rfl, htake⟩
    · intro b rest' hb _
      have hb' := terminal_head hb
      rw [show take (headLexeme t.toks) = some a from htake] at hb'
      obtain ⟨tok', htoks', _⟩ := hb
      rw [htoks] at htoks'
      cases htoks'
      cases hb'
      exact ⟨rfl, hnext.symm⟩
    · rintro ⟨_, h⟩
      rw [TokenState.head, show headLexeme t.toks = _ from h, hopen] at htake
      cases htake
  | none =>
    have hnone : ∀ b rest, terminal take t.toks b rest → ¬True := by
      intro b rest hb
      have := terminal_head hb
      rw [show take (headLexeme t.toks) = none from htake] at this
      cases this
    by_cases hstr : expected = .string ∧ t.head = .openString
    · obtain ⟨rfl, h⟩ := hstr
      rw [tokenTake_open htake h]
      exact .outOfFuel ⟨rfl, h⟩ hnone
    · obtain ⟨message, hrun⟩ := unexpected_run t.peek expected
      rw [tokenTake_unexpected htake hstr, hrun]
      exact .throw ⟨_, _, rfl⟩ hnone hstr

theorem nohang {α : Type} {F : List Token → Prop} {g : Rule Token α} {hang : List Token → Prop}
    {m : Run TokenState Exception α} (h : TokenDecides n P F g hang m)
    (hno : ∀ toks, ¬hang toks) : TokenDecides n P F g (fun _ => False) m :=
  h.congr (fun _ _ _ _ h => h) (fun _ _ _ _ h hF => ⟨h, hF⟩)
    fun t _ => ⟨hno t.toks, False.elim⟩

theorem fixed_decides {symbol : Symbol} (h : (symbolLength symbol).isSome) :
    TokenDecides n P (fun _ => True) (fixedRule symbol) (fun _ => False)
      (tokenLexer.parseSymbol symbol) := by
  have hlexer : tokenLexer.parseSymbol symbol = tokenTake symbol (Lexeme.takeFixed symbol) :=
    if_pos h
  rw [hlexer]
  refine nohang (take_decides symbol _ (if_neg nofun) (if_neg nofun)) ?_
  rintro toks ⟨rfl, _⟩
  cases h

theorem identifier_decides :
    TokenDecides n P (fun _ => True) identifierRule (fun _ => False)
      tokenLexer.parseIdentifier :=
  nohang (take_decides .identifier _ rfl rfl) fun _ h => nomatch h.1

theorem integer_decides :
    TokenDecides n P (fun _ => True) integerRule (fun _ => False) tokenLexer.parseInteger :=
  nohang (take_decides .integer _ rfl rfl) fun _ h => nomatch h.1

theorem string_decides :
    TokenDecides n P (fun _ => True) stringRule OpenString tokenLexer.parseString :=
  (take_decides .string _ rfl rfl).congr (fun _ _ _ _ h => h) (fun _ _ _ _ h hF => ⟨h, hF⟩)
    fun _ _ => ⟨fun h => h.2, fun h => ⟨rfl, h⟩⟩

theorem start_decides (hP : ∀ t, P t → Peeked t) :
    TokenDecides n P (fun _ => True) startRule (fun _ => False)
      (Run.gets tokenLexer.currentPosition) := by
  intro t ht _
  refine .ok ⟨hP t ht, rfl⟩ ?_ not_false
  rintro origin rest ⟨rfl, rfl⟩ _
  exact ⟨(hP t ht).symm, rfl⟩

/-- Looking at the next symbol and going on from there. -/
theorem peek_then {α : Type} {F : List Token → Prop} {g : Rule Token α}
    {hang : List Token → Prop} {f : Symbol → Run TokenState Exception α}
    (hf : ∀ symbol, TokenDecides n (fun t => Peeked t ∧ nextSymbol t.toks = symbol) F g hang
      (f symbol)) :
    TokenDecides n P F g hang (tokenLexer.peekSymbol >>= f) := by
  intro t _ hn
  have hrun : tokenLexer.peekSymbol.run t = (.ok (nextSymbol t.toks), t.peek) := rfl
  rw [Run.bind_ok hrun]
  exact hf (nextSymbol t.toks) t.peek ⟨rfl, rfl⟩ hn

theorem unexpectedIn_decides {α : Type} {F : List Token → Prop} {g : Rule Token α}
    {hang : List Token → Prop} (context : String)
    (hnone : ∀ t, P t → ∀ a rest, g t.toks a rest → ¬F rest) (hno : ∀ t, P t → ¬hang t.toks) :
    TokenDecides n P F g hang
      (unexpectedIn tokenLexer.peekSymbol tokenLexer.currentPosition context) := by
  intro t ht _
  obtain ⟨message, hrun⟩ := unexpectedIn_run t context
  show Answer _ _ _ _ _ _ ((unexpectedIn tokenPeek TokenState.pos context).run t)
  rw [hrun]
  exact .throw ⟨_, _, rfl⟩ (hnone t ht) (hno t ht)

/-! ## Qualified identifiers and types -/

theorem dotted_next {toks rest : List Token} {name : AstIdentifier}
    (h : dottedRule toks name rest) : nextSymbol toks = .namespaceSep := by
  obtain ⟨_, mid, hdot, _⟩ := h
  exact fixed_next hdot

theorem dotted_takes : Takes 1 dottedRule :=
  ((terminal_takes _).bind fun _ => terminal_takes _).weaken (by decide)

/-- The accumulator of `parse_qualified_identifier` holds the words so far, the
last one apart. -/
theorem qualified_foldl (space : List AstIdentifier) (first : AstIdentifier)
    (more : List AstIdentifier) :
    more.foldl (fun (b : List AstIdentifier × AstIdentifier) next => (b.1 ++ [b.2], next))
        (space, first) =
      (space ++ (qualified first more).space, (qualified first more).name) := by
  induction more generalizing space first with
  | nil => simp [qualified]
  | cons next more ih =>
    rw [List.foldl_cons, ih]
    simp [qualified]

theorem qualifiedStep_decides (b : List AstIdentifier × AstIdentifier) :
    TokenDecides n P (fun _ => True)
      (round dottedRule (fun toks => nextSymbol toks ≠ .namespaceSep)
        (fun b next => (b.1 ++ [b.2], next)) (fun b => { space := b.1, name := b.2 }) b)
      (fun _ => False) (parseQualifiedStep tokenLexer b) := by
  refine peek_then fun symbol => ?_
  by_cases hdot : symbol = .namespaceSep
  · rw [if_pos (by simpa using hdot), ← Run.bind_assoc]
    refine Decides.roundItem (f := id) (g := dottedRule) ?_ (by simp) ?_
    · exact (fixed_decides rfl).andThen (terminal_takes _) fun _ => identifier_decides
    · rintro t ⟨-, hnext⟩ hstop
      exact hstop (hnext.trans hdot)
  · rw [if_neg (by simpa using hdot)]
    refine Decides.roundStop ?_ ?_ fun _ _ => not_false
    · rintro t ⟨-, hnext⟩ h
      exact hdot (hnext.symm.trans h)
    · rintro t ⟨-, hnext⟩ next rest hitem
      exact hdot (hnext.symm.trans (dotted_next hitem))

theorem qual_decides {fuel : Nat} (hfuel : n ≤ fuel) :
    TokenDecides n P (fun toks => nextSymbol toks ≠ .namespaceSep) qualRule (fun _ => False)
      (parseQualifiedIdentifier tokenLexer fuel) := by
  have hloop := fun first : AstIdentifier => nohang (Decides.loop (fun b => qualifiedStep_decides b)
    dotted_takes (fun _ _ _ _ => trivial) (fun _ _ => trivial) (fun _ _ => trivial) hfuel
    ([], first)) (by rintro toks ⟨_, _, _, h⟩; exact h)
  refine (identifier_decides.andThen (terminal_takes _) hloop).congr ?_ ?_ fun _ _ => Iff.rfl
  · rintro t - c rest ⟨first, mid, hfirst, more, hmore, _, rfl⟩
    rw [qualified_foldl]
    exact ⟨first, mid, hfirst, more, rest, hmore, rfl, rfl⟩
  · rintro t - c rest ⟨first, mid, hfirst, more, rest', hmore, rfl, rfl⟩ hF
    refine ⟨⟨first, mid, hfirst, more, hmore, hF, ?_⟩, trivial⟩
    rw [qualified_foldl]
    rfl

theorem qual_takes : Takes 1 qualRule :=
  ((terminal_takes _).bind fun _ => (Takes.many dotted_takes).bind fun _ => Takes.pure _).weaken
    (Nat.le_refl 1)

theorem array_takes : Takes 1 arrayRule :=
  ((terminal_takes _).bind fun _ => (terminal_takes _).bind fun _ =>
    (terminal_takes _).bind fun _ => Takes.pure _).weaken (by decide)

theorem type_takes : Takes 1 typeRule :=
  (qual_takes.bind fun _ =>
    ((array_takes.bind fun _ => Takes.pure _).weaken (Nat.zero_le _)).either (Takes.pure _)).weaken
    (Nat.le_refl 1)

/-- What must not come after a type. -/
def TypeFollow (toks : List Token) : Prop :=
  nextSymbol toks ≠ .namespaceSep ∧ nextSymbol toks ≠ .bracketOpen

theorem array_next {toks rest : List Token} {size : Int} (h : arrayRule toks size rest) :
    nextSymbol toks = .bracketOpen := by
  obtain ⟨_, mid, hopen, _⟩ := h
  exact fixed_next hopen

theorem type_decides {fuel : Nat} (hfuel : n ≤ fuel) :
    TokenDecides n P TypeFollow typeRule (fun _ => False) (parseType tokenLexer fuel) := by
  refine (qual_decides hfuel).hangSeq (fun identifier => ?_) qual_takes.keep ?_
  · refine peek_then fun symbol => ?_
    by_cases hopen : symbol = .bracketOpen
    · subst hopen
      refine Decides.congr (F := fun _ => True) (H := fun _ => False)
        (g := do
          fixedRule .bracketOpen
          let size ← integerRule
          fixedRule .bracketClose
          return { identifier, isArray := true, arraySize := some size }) ?_ ?_ ?_
        fun _ _ => Iff.rfl
      · refine (fixed_decides rfl).andThen (terminal_takes _) fun _ => ?_
        refine integer_decides.andThen (terminal_takes _) fun size => ?_
        exact (fixed_decides rfl).andThen (terminal_takes _) fun _ => Decides.pure _
      · rintro t - type rest ⟨_, _, h1, size, _, h2, _, _, h3, rfl, rfl⟩
        exact Or.inl ⟨size, _, ⟨_, _, h1, size, _, h2, _, _, h3, rfl, rfl⟩, rfl, rfl⟩
      · rintro t ⟨-, hnext⟩ type rest (h | ⟨rfl, rfl⟩) hF
        · obtain ⟨size, _, ⟨_, _, h1, _, _, h2, _, _, h3, rfl, rfl⟩, rfl, rfl⟩ := h
          exact ⟨⟨_, _, h1, size, _, h2, _, _, h3, rfl, rfl⟩, trivial⟩
        · exact absurd hnext hF.2
    · have hbool : (symbol == .bracketOpen) = false := by simpa using hopen
      rw [hbool, if_neg Bool.false_ne_true]
      refine (Decides.pure (F := fun _ => True) _).congr ?_ ?_ fun _ _ => Iff.rfl
      · rintro t - type rest ⟨rfl, rfl⟩
        exact Or.inr ⟨rfl, rfl⟩
      · rintro t ⟨-, hnext⟩ type rest (⟨size, mid, harray, _⟩ | ⟨rfl, rfl⟩) _
        · exact absurd (hnext.symm.trans (array_next harray)) hopen
        · exact ⟨⟨rfl, rfl⟩, trivial⟩
  · rintro identifier mid type rest (⟨size, _, harray, _⟩ | ⟨_, rfl⟩) hF
    · rw [array_next harray]
      nofun
    · exact hF.1

/-! ## Bodies -/

theorem foldl_snoc {α : Type} (acc as : List α) :
    as.foldl (fun fields field => fields ++ [field]) acc = acc ++ as := by
  induction as generalizing acc with
  | nil => exact (List.append_nil acc).symm
  | cons a as ih => rw [List.foldl_cons, ih, List.append_assoc, List.singleton_append]

/-- The loop of a `{ … }` body reads as many items as there are before the
closing bracket, if no item can start with that bracket. -/
theorem fields_decides {α : Type} {fuel : Nat} (hfuel : n ≤ fuel) {item : Rule Token α}
    {m : Run TokenState Exception α} {F hang : List Token → Prop}
    (hm : TokenDecides n (fun t => Peeked t ∧ nextSymbol t.toks ≠ .curlyClose) F item hang m)
    (htakes : Takes 1 item)
    (hitem : ∀ toks a rest, item toks a rest → F toks ∧ nextSymbol toks ≠ .curlyClose)
    (hhang : ∀ toks, hang toks → F toks ∧ nextSymbol toks ≠ .curlyClose)
    (hstop : ∀ toks, nextSymbol toks = .curlyClose → F toks) :
    TokenDecides n P (fun toks => nextSymbol toks = .curlyClose) (many item)
      (fun toks => ∃ as rest, Many item toks as rest ∧ hang rest)
      (parseFields tokenLexer fuel m) := by
  have hbody : ∀ fields, TokenDecides n (fun _ => True) F
      (round item (fun toks => nextSymbol toks = .curlyClose)
        (fun fields field => fields ++ [field]) id fields) hang
      (parseFieldsStep tokenLexer m fields) := by
    intro fields
    refine peek_then fun symbol => ?_
    by_cases hclose : symbol = .curlyClose
    · rw [if_neg (by simpa using hclose)]
      refine Decides.roundStop ?_ ?_ ?_
      · exact fun t ⟨_, hnext⟩ => hnext.trans hclose
      · exact fun t ⟨_, hnext⟩ a rest ha => (hitem _ _ _ ha).2 (hnext.trans hclose)
      · exact fun t ⟨_, hnext⟩ hang => (hhang _ hang).2 (hnext.trans hclose)
    · rw [if_pos (by simpa using hclose)]
      have hopen : ∀ t, Peeked t ∧ nextSymbol t.toks = symbol →
          Peeked t ∧ nextSymbol t.toks ≠ .curlyClose :=
        fun t ⟨hpeek, hnext⟩ => ⟨hpeek, fun h => hclose (hnext.symm.trans h)⟩
      refine Decides.roundItem (f := id) (hm.mono hopen (Nat.le_refl n)) (by simp) ?_
      exact fun t ht => (hopen t ht).2
  refine ((Decides.loop hbody htakes (fun _ _ _ h => (hitem _ _ _ h).1) hstop
    (fun _ h => (hhang _ h).1) hfuel []).mono (fun _ _ => trivial) (Nat.le_refl n)).congr ?_ ?_
      fun _ _ => Iff.rfl
  · rintro t - c rest ⟨as, has, _, rfl⟩
    rw [foldl_snoc]
    exact has
  · intro t _ as rest has hF
    refine ⟨⟨as, has, hF, ?_⟩, trivial⟩
    rw [foldl_snoc]
    rfl

/-! ## Structs -/

/-- A rule's value is returned as it is: what can follow stays the same. -/
theorem pure_follow {α β : Type} {F : List Token → Prop} (f : α → β) (a : α)
    (mid : List Token) (b : β) (rest : List Token) (h : (pure (f a) : Rule Token β) mid b rest)
    (hF : F rest) : F mid := by
  obtain ⟨_, rfl⟩ := h
  exact hF

theorem structField_takes : Takes 1 structFieldRule :=
  (start_takes.bind fun _ => (terminal_takes _).bind fun _ => (terminal_takes _).bind fun _ =>
    type_takes.bind fun _ => Takes.pure _).weaken (by decide)

theorem structField_next {toks rest : List Token} {field : AstStructField}
    (h : structFieldRule toks field rest) : nextSymbol toks = .identifier := by
  obtain ⟨_, _, ⟨_, rfl⟩, _, _, hid, _⟩ := h
  exact identifier_next hid

theorem structField_decides {fuel : Nat} (hfuel : n ≤ fuel) (hP : ∀ t, P t → Peeked t) :
    TokenDecides n P TypeFollow structFieldRule (fun _ => False)
      (parseStructField tokenLexer fuel) := by
  refine (start_decides hP).andThen start_takes fun origin => ?_
  refine identifier_decides.andThen (terminal_takes _) fun identifier => ?_
  refine (fixed_decides rfl).andThen (terminal_takes _) fun _ => ?_
  exact (type_decides hfuel).hangSeq (fun type => Decides.pure _) type_takes.keep (pure_follow _)

theorem struct_next {toks rest : List Token} {node : AstStruct}
    (h : structRule toks node rest) : nextSymbol toks = .structKw := by
  obtain ⟨_, _, ⟨_, rfl⟩, _, _, hkw, _⟩ := h
  exact fixed_next hkw

/-- The closing bracket of a body follows its items. -/
theorem close_follow {α β : Type} (f : α → β) (fields : α) (mid : List Token) (b : β)
    (rest : List Token)
    (h : (do fixedRule .curlyClose; return f fields : Rule Token β) mid b rest) (_ : True) :
    nextSymbol mid = .curlyClose := by
  obtain ⟨_, _, hclose, _⟩ := h
  exact fixed_next hclose

theorem structFields_decides {fuel : Nat} (hfuel : n ≤ fuel) :
    TokenDecides n P (fun toks => nextSymbol toks = .curlyClose) (many structFieldRule)
      (fun _ => False) (parseFields tokenLexer fuel (parseStructField tokenLexer fuel)) :=
  nohang (fields_decides hfuel
    (structField_decides hfuel fun t (h : Peeked t ∧ nextSymbol t.toks ≠ .curlyClose) => h.1)
    structField_takes
    (fun toks field rest h => by
      have hnext := structField_next h
      simp [TypeFollow, hnext])
    (fun _ h => h.elim)
    (fun toks h => by simp [TypeFollow, h])) (fun toks ⟨_, _, _, h⟩ => h)

theorem struct_decides {fuel : Nat} (hfuel : n ≤ fuel) (hP : ∀ t, P t → Peeked t) :
    TokenDecides n P (fun _ => True) structRule (fun _ => False)
      (parseStruct tokenLexer fuel) := by
  refine (start_decides hP).andThen start_takes fun origin => ?_
  refine (fixed_decides rfl).andThen (terminal_takes _) fun _ => ?_
  refine identifier_decides.andThen (terminal_takes _) fun identifier => ?_
  refine (fixed_decides rfl).andThen (terminal_takes _) fun _ => ?_
  refine (structFields_decides hfuel).hangSeq (fun fields => ?_)
    (Takes.many structField_takes).keep (close_follow _)
  exact (fixed_decides rfl).andThen (terminal_takes _) fun _ => Decides.pure _

/-! ## Mappings -/

theorem mappingField_takes : Takes 1 mappingFieldRule :=
  (start_takes.bind fun _ => (terminal_takes _).bind fun _ => (terminal_takes _).bind fun _ =>
    (terminal_takes _).bind fun _ => Takes.pure _).weaken (by decide)

theorem mappingField_next {toks rest : List Token} {field : AstMappingField}
    (h : mappingFieldRule toks field rest) : nextSymbol toks = .identifier := by
  obtain ⟨_, _, ⟨_, rfl⟩, _, _, hid, _⟩ := h
  exact identifier_next hid

/-- A mapping field whose string is never closed. -/
def MappingFieldHangs (toks : List Token) : Prop :=
  ∃ name mid rest, identifierRule toks name mid ∧ fixedRule .colon mid () rest ∧ OpenString rest

theorem mappingField_decides (hP : ∀ t, P t → Peeked t) :
    TokenDecides n P (fun _ => True) mappingFieldRule MappingFieldHangs
      (parseMappingField tokenLexer) := by
  refine Decides.congr (F := fun _ => True) ?_ (fun _ _ _ _ h => h)
    (fun _ _ _ _ h _ => ⟨h, trivial⟩) ?_ (H := fun toks => ∃ origin mid,
      startRule toks origin mid ∧ ∃ name mid', identifierRule mid name mid' ∧
      ∃ u rest, fixedRule .colon mid' u rest ∧ OpenString rest)
  · refine (start_decides hP).andThenHang start_takes fun origin => ?_
    refine identifier_decides.andThenHang (terminal_takes _) fun identifier => ?_
    refine (fixed_decides rfl).andThenHang (terminal_takes _) fun _ => ?_
    exact string_decides.hangSeq (fun _ => Decides.pure _) (terminal_takes _).keep (pure_follow _)
  · intro t _
    constructor
    · rintro ⟨_, _, ⟨_, rfl⟩, name, mid, hid, _, rest, hcolon, hopen⟩
      exact ⟨name, mid, rest, hid, hcolon, hopen⟩
    · rintro ⟨name, mid, rest, hid, hcolon, hopen⟩
      exact ⟨_, _, ⟨rfl, rfl⟩, name, mid, hid, _, rest, hcolon, hopen⟩

theorem mapping_next {toks rest : List Token} {node : AstMapping}
    (h : mappingRule toks node rest) : nextSymbol toks = .mappingKw := by
  obtain ⟨_, _, ⟨_, rfl⟩, _, _, hkw, _⟩ := h
  exact fixed_next hkw

/-- A mapping in which the string of a field is never closed. -/
def MappingHangs (toks : List Token) : Prop :=
  ∃ rest, mappingHeadRule toks () rest ∧ OpenString rest

theorem mappingHangs_next {toks : List Token} (h : MappingHangs toks) :
    nextSymbol toks = .mappingKw := by
  obtain ⟨_, ⟨_, _, hkw, _⟩, _⟩ := h
  exact fixed_next hkw

theorem mapping_decides {fuel : Nat} (hfuel : n ≤ fuel) (hP : ∀ t, P t → Peeked t) :
    TokenDecides n P (fun _ => True) mappingRule MappingHangs
      (parseMapping tokenLexer fuel) := by
  have hfields := fields_decides (P := fun _ => True) hfuel
    (mappingField_decides fun t (h : Peeked t ∧ nextSymbol t.toks ≠ .curlyClose) => h.1)
    mappingField_takes
    (fun toks field rest h => by simp [mappingField_next h])
    (fun toks ⟨_, _, _, h, _⟩ => by simp [identifier_next h])
    (fun toks _ => trivial)
  refine Decides.congr (F := fun _ => True) ?_ (fun _ _ _ _ h => h)
    (fun _ _ _ _ h _ => ⟨h, trivial⟩) ?_ (H := fun toks => ∃ origin mid,
      startRule toks origin mid ∧ ∃ u m1, fixedRule .mappingKw mid u m1 ∧
      ∃ structId m2, identifierRule m1 structId m2 ∧ ∃ u m3, fixedRule .colon m2 u m3 ∧
      ∃ category m4, qualRule m3 category m4 ∧ ∃ u m5, fixedRule .curlyOpen m4 u m5 ∧
      ∃ fields m6, Many mappingFieldRule m5 fields m6 ∧ MappingFieldHangs m6)
  · refine (start_decides hP).andThenHang start_takes fun origin => ?_
    refine (fixed_decides rfl).andThenHang (terminal_takes _) fun _ => ?_
    refine identifier_decides.andThenHang (terminal_takes _) fun structId => ?_
    refine (fixed_decides rfl).andThenHang (terminal_takes _) fun _ => ?_
    refine (qual_decides hfuel).seqHang (fun category => ?_) qual_takes.keep ?_ ?_
    · refine (fixed_decides rfl).andThenHang (terminal_takes _) fun _ => ?_
      refine hfields.hangSeq (fun fields => ?_) (Takes.many mappingField_takes).keep
        (close_follow _)
      exact (fixed_decides rfl).andThen (terminal_takes _) fun _ => Decides.pure _
    · rintro category mid node rest ⟨_, _, hopen, _⟩ _
      rw [fixed_next hopen]
      nofun
    · rintro category mid ⟨_, _, hopen, _⟩
      rw [fixed_next hopen]
      nofun
  · intro t _
    constructor
    · rintro ⟨_, _, ⟨_, rfl⟩, u1, m1, h1, id, m2, h2, u3, m3, h3, cat, m4, h4, u5, m5, h5, fs, m6,
        h6, name, m7, rest, h7, h8, hopen⟩
      exact ⟨rest, ⟨u1, m1, h1, id, m2, h2, u3, m3, h3, cat, m4, h4, u5, m5, h5, fs, m6, h6, name,
        m7, h7, h8⟩, hopen⟩
    · rintro ⟨rest, ⟨u1, m1, h1, id, m2, h2, u3, m3, h3, cat, m4, h4, u5, m5, h5, fs, m6, h6, name,
        m7, h7, h8⟩, hopen⟩
      exact ⟨_, _, ⟨rfl, rfl⟩, u1, m1, h1, id, m2, h2, u3, m3, h3, cat, m4, h4, u5, m5, h5, fs, m6,
        h6, name, m7, rest, h7, h8, hopen⟩

/-! ## Encodings -/

/-- What must not come after an encoding name. -/
def NameFollow (toks : List Token) : Prop := nextSymbol toks ≠ .colon

theorem encodingName_takes : Takes 0 encodingNameRule :=
  (((terminal_takes _).bind fun _ => terminal_takes _).weaken (Nat.zero_le _)).either
    (Takes.pure _)

theorem encodingName_decides :
    TokenDecides n P NameFollow encodingNameRule (fun _ => False)
      (parseEncodingName tokenLexer) := by
  refine peek_then fun symbol => ?_
  by_cases hcolon : symbol = .colon
  · rw [if_pos (by simpa using hcolon)]
    refine Decides.congr (F := fun _ => True) (H := fun _ => False)
      (g := do
        fixedRule .colon
        identifierRule) ?_ ?_ ?_ fun _ _ => Iff.rfl
    · exact (fixed_decides rfl).andThen (terminal_takes _) fun _ => identifier_decides
    · exact fun _ _ _ _ h => Or.inl h
    · rintro t ⟨-, hnext⟩ name rest (h | ⟨rfl, rfl⟩) hF
      · exact ⟨h, trivial⟩
      · exact absurd (hnext.trans hcolon) hF
  · rw [if_neg (by simpa using hcolon)]
    refine (Decides.pure (F := fun _ => True) _).congr ?_ ?_ fun _ _ => Iff.rfl
    · exact fun _ _ _ _ h => Or.inr h
    · rintro t ⟨-, hnext⟩ name rest (⟨_, _, h, _⟩ | h) _
      · exact absurd (hnext.symm.trans (fixed_next h)) hcolon
      · exact ⟨h, trivial⟩

theorem encodingField_next {toks rest : List Token} {node : AstEncodingNode}
    (h : encodingFieldRule toks node rest) : nextSymbol toks = .identifier := by
  obtain ⟨_, _, ⟨_, rfl⟩, _, _, hid, _⟩ := h
  exact identifier_next hid

theorem encodingField_takes : Takes 1 encodingFieldRule :=
  (start_takes.bind fun _ => (terminal_takes _).bind fun _ => encodingName_takes.bind fun _ =>
    Takes.pure _).weaken (by decide)

theorem encodingField_decides (hP : ∀ t, P t → Peeked t) :
    TokenDecides n P NameFollow encodingFieldRule (fun _ => False)
      (parseEncodingField tokenLexer) := by
  refine (start_decides hP).andThen start_takes fun origin => ?_
  refine identifier_decides.andThen (terminal_takes _) fun identifier => ?_
  exact encodingName_decides.hangSeq (fun _ => Decides.pure _) encodingName_takes.keep
    (pure_follow _)

theorem encodingNode_next {toks rest : List Token} {node : AstEncodingNode}
    (h : EncodingNode toks node rest) :
    nextSymbol toks = .identifier ∨ nextSymbol toks = .deltaKw := by
  cases h with
  | field h => exact Or.inl (encodingField_next h)
  | deltaField h _ => exact Or.inr (fixed_next h)
  | deltaBlock h _ _ _ => exact Or.inr (fixed_next h)

mutual

theorem encodingNode_takes {toks rest : List Token} {node : AstEncodingNode} :
    EncodingNode toks node rest → rest <:+ toks ∧ rest.length + 1 ≤ toks.length
  | .field h => encodingField_takes _ _ _ h
  | .deltaField h h' => by
    obtain ⟨h1, l1⟩ := terminal_takes _ _ _ _ h
    obtain ⟨h2, l2⟩ := encodingField_takes _ _ _ h'
    exact ⟨h2.trans h1, by omega⟩
  | .deltaBlock h h' hs h'' => by
    obtain ⟨h1, l1⟩ := terminal_takes _ _ _ _ h
    obtain ⟨h2, l2⟩ := terminal_takes _ _ _ _ h'
    obtain ⟨h3, l3⟩ := encodingNodes_takes hs
    obtain ⟨h4, l4⟩ := terminal_takes _ _ _ _ h''
    exact ⟨h4.trans (h3.trans (h2.trans h1)), by omega⟩

theorem encodingNodes_takes {toks rest : List Token} {nodes : List AstEncodingNode} :
    Many EncodingNode toks nodes rest → rest <:+ toks ∧ rest.length + 0 ≤ toks.length
  | .nil _ => ⟨List.suffix_refl _, Nat.le_refl _⟩
  | .cons h hs => by
    obtain ⟨h1, l1⟩ := encodingNode_takes h
    obtain ⟨h2, l2⟩ := encodingNodes_takes hs
    exact ⟨h2.trans h1, by omega⟩

end

/-- What comes after the keyword in a `DELTA` node. -/
def deltaTailRule (origin : DocumentPosition) : Rule Token AstEncodingNode :=
  either
    (do
      let node ← encodingFieldRule
      return .deltaBlock origin [node])
    (do
      fixedRule .curlyOpen
      let nodes ← many EncodingNode
      fixedRule .curlyClose
      return .deltaBlock origin nodes)

theorem encodingNodes_decides {fuel : Nat} (hfuel : n ≤ fuel)
    {node : Run TokenState Exception AstEncodingNode}
    (hnode : ∀ P : TokenState → Prop, (∀ t, P t → Peeked t) →
      TokenDecides n P NameFollow EncodingNode (fun _ => False) node) :
    TokenDecides n P (fun toks => nextSymbol toks = .curlyClose) (many EncodingNode)
      (fun _ => False) (parseFields tokenLexer fuel node) := by
  refine nohang (fields_decides hfuel (hnode _ fun _ h => h.1) (fun _ _ _ => encodingNode_takes)
    ?_ (fun _ h => h.elim) ?_) fun toks ⟨_, _, _, h⟩ => h
  · intro toks a rest h
    rcases encodingNode_next h with hnext | hnext
    · simp [NameFollow, hnext]
    · simp [NameFollow, hnext]
  · intro toks h
    simp [NameFollow, h]

/-- A node that starts with an identifier is a field. -/
theorem encodingNode_field {toks rest : List Token} {node : AstEncodingNode}
    (hnext : nextSymbol toks = .identifier) (h : EncodingNode toks node rest) :
    encodingFieldRule toks node rest := by
  cases h with
  | field h => exact h
  | deltaField h _ => cases hnext.symm.trans (fixed_next h)
  | deltaBlock h _ _ _ => cases hnext.symm.trans (fixed_next h)

theorem deltaBlock_decides {fuel : Nat} (hfuel : n ≤ fuel)
    {node : Run TokenState Exception AstEncodingNode}
    (hnode : ∀ P : TokenState → Prop, (∀ t, P t → Peeked t) →
      TokenDecides n P NameFollow EncodingNode (fun _ => False) node)
    (hP : ∀ t, P t → Peeked t) :
    TokenDecides (n + 1) P NameFollow
      (do let origin ← startRule; fixedRule .deltaKw; deltaTailRule origin) (fun _ => False)
      (parseEncodingDeltaBlock tokenLexer fuel node) := by
  refine (start_decides hP).andThen start_takes fun origin => ?_
  refine (fixed_decides rfl).hangSeq (fun _ => ?_) (terminal_takes _).drop
    fun _ _ _ _ _ _ => trivial
  refine peek_then fun symbol => ?_
  split
  · refine ((hnode _ fun _ h => h.1).hangSeq (fun _ => Decides.pure _)
      (Takes.keep (k := 1) fun _ _ _ => encodingNode_takes) (pure_follow _)).congr ?_ ?_
      fun _ _ => Iff.rfl
    · rintro t ⟨-, hnext⟩ a rest ⟨field, mid, h, h'⟩
      exact Or.inl ⟨field, mid, encodingNode_field hnext h, h'⟩
    · rintro t ⟨-, hnext⟩ a rest (⟨field, mid, h, h'⟩ | ⟨_, _, h, _⟩) hF
      · exact ⟨⟨field, mid, .field h, h'⟩, hF⟩
      · cases hnext.symm.trans (fixed_next h)
  · refine Decides.congr (F := fun _ => True) (H := fun _ => False)
      (g := do
        fixedRule .curlyOpen
        let nodes ← many EncodingNode
        fixedRule .curlyClose
        return .deltaBlock origin nodes) ?_ ?_ ?_ fun _ _ => Iff.rfl
    · refine (fixed_decides rfl).andThen (terminal_takes _) fun _ => ?_
      refine (encodingNodes_decides hfuel hnode).hangSeq (fun nodes => ?_)
        (Takes.keep (k := 0) fun _ _ _ => encodingNodes_takes) (close_follow _)
      exact (fixed_decides rfl).andThen (terminal_takes _) fun _ => Decides.pure _
    · exact fun _ _ _ _ h => Or.inr h
    · rintro t ⟨-, hnext⟩ a rest (⟨field, mid, h, _⟩ | h) _
      · cases hnext.symm.trans (encodingField_next h)
      · exact ⟨h, trivial⟩
  · next hid hopen =>
    refine unexpectedIn_decides _ ?_ fun _ _ => not_false
    rintro t ⟨-, hnext⟩ a rest (⟨field, mid, h, _⟩ | ⟨_, _, h, _⟩) _
    · exact hid (hnext.symm.trans (encodingField_next h))
    · exact hopen (hnext.symm.trans (fixed_next h))

/-- The induction is on the depth bound; a `DELTA` keyword is read before the
recursion, so a bound above the number of tokens is enough. -/
theorem encodingNode_decides {fuel depth : Nat} (hfuel : n ≤ fuel) (hdepth : n ≤ depth)
    (hP : ∀ t, P t → Peeked t) :
    TokenDecides n P NameFollow EncodingNode (fun _ => False)
      (parseEncodingNode tokenLexer fuel depth) := by
  induction depth generalizing n P with
  | zero =>
    intro t _ hn
    omega
  | succ depth ih =>
    cases n with
    | zero =>
      intro t _ hn
      exact absurd hn (Nat.not_lt_zero _)
    | succ n =>
      refine peek_then fun symbol => ?_
      split
      · have hnode : ∀ P : TokenState → Prop, (∀ t, P t → Peeked t) →
            TokenDecides n P NameFollow EncodingNode (fun _ => False)
              (parseEncodingNode tokenLexer fuel depth) :=
          fun P hP => ih (Nat.le_of_succ_le hfuel) (Nat.le_of_succ_le_succ hdepth) hP
        refine (deltaBlock_decides (Nat.le_of_succ_le hfuel) hnode fun _ h => h.1).congr ?_ ?_
          fun _ _ => Iff.rfl
        · rintro t - a rest ⟨_, _, ⟨rfl, rfl⟩, _, mid, hdelta, htail⟩
          rcases htail with
            ⟨node, _, hnode, rfl, rfl⟩ | ⟨_, _, h1, nodes, _, h2, _, _, h3, rfl, rfl⟩
          · exact .deltaField hdelta hnode
          · exact .deltaBlock hdelta h1 h2 h3
        · rintro t ⟨-, hnext⟩ a rest h hF
          refine ⟨⟨_, _, ⟨rfl, rfl⟩, ?_⟩, hF⟩
          cases h with
          | field h => cases hnext.symm.trans (encodingField_next h)
          | deltaField h h' => exact ⟨_, _, h, Or.inl ⟨_, _, h', rfl, rfl⟩⟩
          | deltaBlock h h1 h2 h3 =>
            exact ⟨_, _, h, Or.inr ⟨_, _, h1, _, _, h2, _, _, h3, rfl, rfl⟩⟩
      · refine (encodingField_decides fun _ h => h.1).congr ?_ ?_ fun _ _ => Iff.rfl
        · exact fun _ _ _ _ h => .field h
        · exact fun t ht a rest h hF => ⟨encodingNode_field ht.2 h, hF⟩
      · next hdelta hid =>
        refine unexpectedIn_decides _ ?_ fun _ _ => not_false
        rintro t ⟨-, hnext⟩ a rest h _
        rcases encodingNode_next h with h | h
        · exact hid (hnext.symm.trans h)
        · exact hdelta (hnext.symm.trans h)

theorem encoding_next {toks rest : List Token} {node : AstEncoding}
    (h : encodingRule toks node rest) : nextSymbol toks = .encodingKw := by
  obtain ⟨_, _, ⟨_, rfl⟩, _, _, hkw, _⟩ := h
  exact fixed_next hkw

theorem encoding_decides {fuel : Nat} (hfuel : n ≤ fuel) (hP : ∀ t, P t → Peeked t) :
    TokenDecides n P (fun _ => True) encodingRule (fun _ => False)
      (parseEncoding tokenLexer fuel) := by
  refine (start_decides hP).andThen start_takes fun origin => ?_
  refine (fixed_decides rfl).andThen (terminal_takes _) fun _ => ?_
  refine identifier_decides.andThen (terminal_takes _) fun structId => ?_
  refine encodingName_decides.hangSeq (fun encoId => ?_) encodingName_takes.keep ?_
  · refine (fixed_decides rfl).andThen (terminal_takes _) fun _ => ?_
    refine (encodingNodes_decides hfuel fun P hP => encodingNode_decides hfuel hfuel hP).hangSeq
      (fun nodes => ?_) (Takes.keep (k := 0) fun _ _ _ => encodingNodes_takes) (close_follow _)
    exact (fixed_decides rfl).andThen (terminal_takes _) fun _ => Decides.pure _
  · rintro encoId mid node rest ⟨_, _, hopen, _⟩ _
    unfold NameFollow
    rw [fixed_next hopen]
    nofun

/-! ## Documents -/

theorem include_takes : Takes 1 includeRule :=
  (start_takes.bind fun _ => (terminal_takes _).bind fun _ => (terminal_takes _).bind fun _ =>
    Takes.pure _).weaken (by decide)

theorem include_next {toks rest : List Token} {node : AstInclude}
    (h : includeRule toks node rest) : nextSymbol toks = .includeKw := by
  obtain ⟨_, _, ⟨_, rfl⟩, _, _, hkw, _⟩ := h
  exact fixed_next hkw

/-- An include whose string is never closed. -/
def IncludeHangs (toks : List Token) : Prop :=
  ∃ rest, fixedRule .includeKw toks () rest ∧ OpenString rest

theorem include_decides (hP : ∀ t, P t → Peeked t) :
    TokenDecides n P (fun _ => True) includeRule IncludeHangs (parseInclude tokenLexer) := by
  refine Decides.congr (F := fun _ => True) ?_ (fun _ _ _ _ h => h)
    (fun _ _ _ _ h _ => ⟨h, trivial⟩) ?_ (H := fun toks => ∃ origin mid,
      startRule toks origin mid ∧ ∃ u rest, fixedRule .includeKw mid u rest ∧ OpenString rest)
  · refine (start_decides hP).andThenHang start_takes fun origin => ?_
    refine (fixed_decides rfl).andThenHang (terminal_takes _) fun _ => ?_
    exact string_decides.hangSeq (fun _ => Decides.pure _) (terminal_takes _).keep (pure_follow _)
  · intro t _
    constructor
    · rintro ⟨_, _, ⟨_, rfl⟩, _, rest, hkw, hopen⟩
      exact ⟨rest, hkw, hopen⟩
    · rintro ⟨rest, hkw, hopen⟩
      exact ⟨_, _, ⟨rfl, rfl⟩, _, rest, hkw, hopen⟩

theorem includesStep_decides (includes : List AstInclude) :
    TokenDecides n P (fun _ => True)
      (round includeRule (fun toks => nextSymbol toks ≠ .includeKw)
        (fun includes node => includes ++ [node]) id includes)
      IncludeHangs (parseIncludesStep tokenLexer includes) := by
  refine peek_then fun symbol => ?_
  by_cases hkw : symbol = .includeKw
  · rw [if_pos (by simpa using hkw)]
    refine Decides.roundItem (f := id) (include_decides fun _ h => h.1) (by simp) ?_
    rintro t ⟨-, hnext⟩ hstop
    exact hstop (hnext.trans hkw)
  · rw [if_neg (by simpa using hkw)]
    refine Decides.roundStop ?_ ?_ ?_
    · rintro t ⟨-, hnext⟩ h
      exact hkw (hnext.symm.trans h)
    · rintro t ⟨-, hnext⟩ node rest hitem
      exact hkw (hnext.symm.trans (include_next hitem))
    · rintro t ⟨-, hnext⟩ ⟨rest, hfixed, _⟩
      exact hkw (hnext.symm.trans (fixed_next hfixed))

theorem includes_decides {fuel : Nat} (hfuel : n ≤ fuel) :
    TokenDecides n (fun _ => True) (fun toks => nextSymbol toks ≠ .includeKw) (many includeRule)
      (fun toks => ∃ as rest, Many includeRule toks as rest ∧ IncludeHangs rest)
      (Run.loop (parseIncludesStep tokenLexer) fuel []) := by
  refine (Decides.loop (fun includes => includesStep_decides includes) include_takes
    (fun _ _ _ _ => trivial) (fun _ _ => trivial) (fun _ _ => trivial) hfuel []).congr ?_ ?_
    fun _ _ => Iff.rfl
  · rintro t - c rest ⟨as, has, _, rfl⟩
    rw [foldl_snoc]
    exact has
  · intro t _ as rest has hF
    refine ⟨⟨as, has, hF, ?_⟩, trivial⟩
    rw [foldl_snoc]
    rfl

theorem namespace_takes : Takes 0 namespaceRule :=
  (((terminal_takes _).bind fun _ => qual_takes).weaken (Nat.zero_le _)).either (Takes.pure _)

/-- What must not come after the namespace part. -/
def NamespaceFollow (toks : List Token) : Prop :=
  nextSymbol toks ≠ .namespaceKw ∧ nextSymbol toks ≠ .namespaceSep

theorem namespace_decides {fuel : Nat} (hfuel : n ≤ fuel) :
    TokenDecides n P NamespaceFollow namespaceRule (fun _ => False)
      (parseNamespace tokenLexer fuel) := by
  refine peek_then fun symbol => ?_
  by_cases hkw : symbol = .namespaceKw
  · rw [if_pos (by simpa using hkw)]
    refine Decides.congr (F := fun toks => nextSymbol toks ≠ .namespaceSep) (H := fun _ => False)
      (g := do
        fixedRule .namespaceKw
        qualRule) ?_ ?_ ?_ fun _ _ => Iff.rfl
    · exact (fixed_decides rfl).andThen (terminal_takes _) fun _ => qual_decides hfuel
    · exact fun _ _ _ _ h => Or.inl h
    · rintro t ⟨-, hnext⟩ name rest (h | ⟨rfl, rfl⟩) hF
      · exact ⟨h, hF.2⟩
      · exact absurd (hnext.trans hkw) hF.1
  · rw [if_neg (by simpa using hkw)]
    refine (Decides.pure (F := fun _ => True) _).congr ?_ ?_ fun _ _ => Iff.rfl
    · exact fun _ _ _ _ h => Or.inr h
    · rintro t ⟨-, hnext⟩ name rest (⟨_, _, h, _⟩ | h) _
      · exact absurd (hnext.symm.trans (fixed_next h)) hkw
      · exact ⟨h, trivial⟩

theorem struct_takes : Takes 1 structRule :=
  (start_takes.bind fun _ => (terminal_takes _).bind fun _ => (terminal_takes _).bind fun _ =>
    (terminal_takes _).bind fun _ => (Takes.many structField_takes).bind fun _ =>
      (terminal_takes _).bind fun _ => Takes.pure _).weaken (by decide)

theorem mapping_takes : Takes 1 mappingRule :=
  (start_takes.bind fun _ => (terminal_takes _).bind fun _ => (terminal_takes _).bind fun _ =>
    (terminal_takes _).bind fun _ => qual_takes.bind fun _ => (terminal_takes _).bind fun _ =>
      (Takes.many mappingField_takes).bind fun _ => (terminal_takes _).bind fun _ =>
        Takes.pure _).weaken (by decide)

theorem encoding_takes : Takes 1 encodingRule := by
  have hnodes : Takes 0 (many EncodingNode) := fun _ _ _ => encodingNodes_takes
  exact (start_takes.bind fun _ => (terminal_takes _).bind fun _ => (terminal_takes _).bind fun _ =>
    encodingName_takes.bind fun _ => (terminal_takes _).bind fun _ => hnodes.bind fun _ =>
      (terminal_takes _).bind fun _ => Takes.pure _).weaken (by decide)

/-- A declaration is one of three, and its keyword says which. -/
theorem decl_cases {toks rest : List Token} {decl : Decl} (h : declRule toks decl rest) :
    (∃ node, decl = .struct node ∧ structRule toks node rest ∧ nextSymbol toks = .structKw) ∨
    (∃ node, decl = .mapping node ∧ mappingRule toks node rest ∧ nextSymbol toks = .mappingKw) ∨
    ∃ node, decl = .encoding node ∧ encodingRule toks node rest ∧
      nextSymbol toks = .encodingKw := by
  rcases h with ⟨node, _, h, rfl, rfl⟩ | ⟨node, _, h, rfl, rfl⟩ | ⟨node, _, h, rfl, rfl⟩
  · exact Or.inl ⟨node, rfl, h, struct_next h⟩
  · exact Or.inr (Or.inl ⟨node, rfl, h, mapping_next h⟩)
  · exact Or.inr (Or.inr ⟨node, rfl, h, encoding_next h⟩)

theorem decl_takes : Takes 1 declRule := by
  intro toks decl rest h
  rcases decl_cases h with ⟨node, _, h, _⟩ | ⟨node, _, h, _⟩ | ⟨node, _, h, _⟩
  · exact struct_takes _ _ _ h
  · exact mapping_takes _ _ _ h
  · exact encoding_takes _ _ _ h

/-- A round of the declaration loop that reads a declaration of the kind `f`,
whose keyword is `symbol`. -/
theorem declRound_decides {δ : Type} {g : Rule Token δ} {f : δ → Decl} {hang : List Token → Prop}
    {m : Run TokenState Exception δ} {symbol : Symbol} (root : AstRoot)
    (hm : TokenDecides n (fun t => Peeked t ∧ nextSymbol t.toks = symbol) (fun _ => True) g hang m)
    (hrule : ∀ toks node rest, g toks node rest → declRule toks (f node) rest)
    (hread : ∀ toks decl rest, nextSymbol toks = symbol → declRule toks decl rest →
      ∃ node, g toks node rest ∧ decl = f node) (heof : symbol ≠ .eof) :
    TokenDecides n (fun t => Peeked t ∧ nextSymbol t.toks = symbol) (fun _ => True)
      (round declRule (fun toks => nextSymbol toks = .eof) AstRoot.declare id root) hang
      (m >>= fun node => pure (.again (root.declare (f node)))) := by
  refine Decides.roundItem hm ?_ ?_
  · rintro t ⟨-, hnext⟩ decl rest
    constructor
    · exact hread t.toks decl rest hnext
    · rintro ⟨node, h, rfl⟩
      exact hrule t.toks node rest h
  · rintro t ⟨-, hnext⟩ hstop
    exact heof (hnext.symm.trans hstop)

theorem declStep_decides {fuel : Nat} (hfuel : n ≤ fuel) (root : AstRoot) :
    TokenDecides n P (fun _ => True)
      (round declRule (fun toks => nextSymbol toks = .eof) AstRoot.declare id root)
      MappingHangs (parseDeclStep tokenLexer fuel root) := by
  have hswap : ∀ {symbol : Symbol} {t : TokenState}, nextSymbol t.toks = symbol →
      symbol ≠ .mappingKw → (False ↔ MappingHangs t.toks) := by
    intro symbol t hnext hsym
    exact ⟨False.elim, fun h => hsym (hnext.symm.trans (mappingHangs_next h))⟩
  refine peek_then fun symbol => ?_
  split
  · refine Decides.congr (F := fun _ => True) (H := fun _ => False) ?_ (fun _ _ _ _ h => h)
      (fun _ _ _ _ h _ => ⟨h, trivial⟩) (fun _ ht => hswap ht.2 nofun)
    refine declRound_decides root (struct_decides hfuel fun _ h => h.1)
      (fun _ node rest h => Or.inl ⟨node, rest, h, rfl, rfl⟩)
      (fun toks decl rest hnext h => ?_) nofun
    rcases decl_cases h with ⟨node, rfl, h, _⟩ | ⟨_, _, _, h⟩ | ⟨_, _, _, h⟩
    · exact ⟨node, h, rfl⟩
    · cases hnext.symm.trans h
    · cases hnext.symm.trans h
  · refine declRound_decides root (mapping_decides hfuel fun _ h => h.1)
      (fun _ node rest h => Or.inr (Or.inl ⟨node, rest, h, rfl, rfl⟩))
      (fun toks decl rest hnext h => ?_) nofun
    rcases decl_cases h with ⟨_, _, _, h⟩ | ⟨node, rfl, h, _⟩ | ⟨_, _, _, h⟩
    · cases hnext.symm.trans h
    · exact ⟨node, h, rfl⟩
    · cases hnext.symm.trans h
  · refine Decides.congr (F := fun _ => True) (H := fun _ => False) ?_ (fun _ _ _ _ h => h)
      (fun _ _ _ _ h _ => ⟨h, trivial⟩) (fun _ ht => hswap ht.2 nofun)
    refine declRound_decides root (encoding_decides hfuel fun _ h => h.1)
      (fun _ node rest h => Or.inr (Or.inr ⟨node, rest, h, rfl, rfl⟩))
      (fun toks decl rest hnext h => ?_) nofun
    rcases decl_cases h with ⟨_, _, _, h⟩ | ⟨_, _, _, h⟩ | ⟨node, rfl, h, _⟩
    · cases hnext.symm.trans h
    · cases hnext.symm.trans h
    · exact ⟨node, h, rfl⟩
  · refine Decides.roundStop (fun _ h => h.2) ?_ ?_
    · rintro t ⟨-, hnext⟩ decl rest h
      rcases decl_cases h with ⟨_, _, _, h⟩ | ⟨_, _, _, h⟩ | ⟨_, _, _, h⟩
      · cases hnext.symm.trans h
      · cases hnext.symm.trans h
      · cases hnext.symm.trans h
    · rintro t ⟨-, hnext⟩ h
      cases hnext.symm.trans (mappingHangs_next h)
  · next hstruct hmapping hencoding heof =>
    refine unexpectedIn_decides _ ?_ ?_
    · rintro t ⟨-, hnext⟩ i rest (⟨decl, h, _⟩ | ⟨hstop, _⟩) _
      · rcases decl_cases h with ⟨_, _, _, h⟩ | ⟨_, _, _, h⟩ | ⟨_, _, _, h⟩
        · exact hstruct (hnext.symm.trans h)
        · exact hmapping (hnext.symm.trans h)
        · exact hencoding (hnext.symm.trans h)
      · exact heof (hnext.symm.trans hstop)
    · rintro t ⟨-, hnext⟩ h
      exact hmapping (hnext.symm.trans (mappingHangs_next h))

/-- What can come after the namespace part: a declaration or the end. -/
theorem decls_next {toks rest : List Token} {decls : List Decl} (h : Many declRule toks decls rest)
    (hend : nextSymbol rest = .eof ∨ MappingHangs rest) :
    nextSymbol toks ∈ [Symbol.structKw, .mappingKw, .encodingKw, .eof] := by
  cases h with
  | nil =>
    rcases hend with h | h
    · simp [h]
    · simp [mappingHangs_next h]
  | cons h _ =>
    rcases decl_cases h with ⟨_, _, _, h⟩ | ⟨_, _, _, h⟩ | ⟨_, _, _, h⟩
    · simp [h]
    · simp [h]
    · simp [h]

theorem decls_follow {toks rest : List Token} {decls : List Decl}
    (h : Many declRule toks decls rest) (hend : nextSymbol rest = .eof ∨ MappingHangs rest) :
    NamespaceFollow toks ∧ nextSymbol toks ≠ .includeKw := by
  have hnext := decls_next h hend
  simp only [List.mem_cons, List.not_mem_nil, or_false] at hnext
  rcases hnext with h | h | h | h <;> simp [NamespaceFollow, h]

/-- What can come after the includes. -/
theorem namespace_next {toks mid : List Token} {space : AstQualifiedIdentifier}
    (h : namespaceRule toks space mid) (hmid : nextSymbol mid ≠ .includeKw) :
    nextSymbol toks ≠ .includeKw := by
  rcases h with ⟨_, _, hkw, _⟩ | ⟨_, rfl⟩
  · rw [fixed_next hkw]
    nofun
  · exact hmid

/-- A token sequence the parser hangs on has a literal that is never closed. -/
theorem openString_mem {toks : List Token} (h : Hangs toks) :
    ∃ tok ∈ toks, tok.lexeme = .openString := by
  obtain ⟨rest, hbegins, hopen⟩ := h
  have hincludes := Takes.many include_takes
  have hsuffix : rest <:+ toks := by
    rcases hbegins with h | h
    · exact ((hincludes.bind fun _ => terminal_takes _) _ _ _ h).1
    · have hhead : Takes 0 mappingHeadRule :=
        ((terminal_takes _).bind fun _ => (terminal_takes _).bind fun _ =>
          (terminal_takes _).bind fun _ => qual_takes.bind fun _ => (terminal_takes _).bind fun _ =>
          (Takes.many mappingField_takes).bind fun _ => (terminal_takes _).bind fun _ =>
          terminal_takes _).weaken (Nat.zero_le _)
      exact ((hincludes.bind fun _ => namespace_takes.bind fun _ =>
        (Takes.many decl_takes).bind fun _ => hhead) _ _ _ h).1
  cases rest with
  | nil => cases hopen
  | cons tok rest => exact ⟨tok, hsuffix.subset (List.mem_cons_self), hopen⟩

end DecidingLemmas

open DecidingLemmas

/-- `parse_document` over a token sequence decides the reference grammar. -/
theorem parseDocument_decides (filename : List UInt8) {n fuel : Nat} (hfuel : n ≤ fuel) :
    TokenDecides n (fun t => t.pos = ⟨filename, 1, 0⟩) (fun _ => True) (documentRule filename)
      Hangs (parseDocument tokenLexer fuel) := by
  have hdecls := fun root => Decides.loop (fun root => declStep_decides hfuel root) decl_takes
    (fun _ _ _ _ => trivial) (fun _ _ => trivial) (fun _ _ => trivial) hfuel root
  have hspace := fun includes : List AstInclude => (namespace_decides (P := fun _ => True)
    hfuel).seqHang (fun space => hdecls
      { origin := ⟨filename, 1, 0⟩, includes, space, structDecls := [], mapDecls := [],
        encoDecls := [] }) namespace_takes.keep
    (fun space mid root rest ⟨decls, h, hend, _⟩ _ => (decls_follow h (Or.inl hend)).1)
    (fun space mid ⟨decls, rest, h, hang⟩ => (decls_follow h (Or.inr hang)).1)
  have hall := (includes_decides hfuel).bind hspace (Takes.many include_takes).keep
    (fun includes mid root rest ⟨space, mid', hns, decls, h, hend, _⟩ _ =>
      namespace_next hns (decls_follow h (Or.inl hend)).2)
    (fun includes mid ⟨space, mid', hns, decls, rest, h, hang⟩ =>
      namespace_next hns (decls_follow h (Or.inr hang)).2)
  intro t hpos hn
  have hget : (Run.gets tokenLexer.currentPosition : Run TokenState Exception _).run t =
      (.ok ⟨filename, 1, 0⟩, t) := by
    rw [← hpos]
    rfl
  rw [parseDocument, Run.bind_ok hget]
  refine hall.congr ?_ ?_ ?_ t trivial hn
  · rintro t - root rest ⟨includes, m1, h1, space, m2, h2, decls, h3, hend, rfl⟩
    exact ⟨includes, m1, h1, space, m2, h2, decls, rest, h3, (), rest, ⟨hend, rfl⟩, rfl, rfl⟩
  · rintro t - root rest
      ⟨includes, m1, h1, space, m2, h2, decls, m3, h3, _, _, ⟨hend, rfl⟩, rfl, rfl⟩ -
    exact ⟨⟨includes, m1, h1, space, m2, h2, decls, h3, hend, rfl⟩, trivial⟩
  · intro t _
    constructor
    · rintro (⟨includes, m1, h1, rest, hkw, hopen⟩ |
        ⟨includes, m1, h1, space, m2, h2, decls, m3, h3, rest, hhead, hopen⟩)
      · exact ⟨rest, Or.inl ⟨includes, m1, h1, hkw⟩, hopen⟩
      · exact ⟨rest, Or.inr ⟨includes, m1, h1, space, m2, h2, decls, m3, h3, hhead⟩, hopen⟩
    · rintro ⟨rest, ⟨includes, m1, h1, hkw⟩ |
        ⟨includes, m1, h1, space, m2, h2, decls, m3, h3, hhead⟩, hopen⟩
      · exact Or.inl ⟨includes, m1, h1, rest, hkw, hopen⟩
      · exact Or.inr ⟨includes, m1, h1, space, m2, h2, decls, m3, h3, rest, hhead, hopen⟩

end Ian.Happy
