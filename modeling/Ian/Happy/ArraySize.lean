import Ian.Happy.Placing
import Mathlib.Algebra.Ring.Int.Defs

/-!
# The sizes of arrays

`parse_integer` reads the literal between the brackets of a type. It takes a
sign with no digit after it for a number, and it does not check its accumulator.
So the size is the number that is written exactly if a digit is written and the
number without its sign fits in an `int64_t` (`array_size_iff`).
-/

namespace Ian.Happy

open Ian.Lib Run Rule

/-! ## Literals -/

/-- The value fits in an `int64_t`. -/
def InInt64 (n : Int) : Prop := -2 ^ 63 ≤ n ∧ n < 2 ^ 63

/-- What the loop of `parse_integer` runs over: the literal without its sign. -/
def literalDigits : List UInt8 → List UInt8
  | [] => []
  | c :: cs => if c == minusSign || c == plusSign then cs else c :: cs

/-- An optional sign and at least one decimal digit. -/
def IsNumeral (literal : List UInt8) : Prop :=
  literalDigits literal ≠ [] ∧ ∀ d ∈ literalDigits literal, isDigit d = true

/-- The number that is written. -/
def literalValue (literal : List UInt8) : Int :=
  if literal.head? = some minusSign then -(decimal (literalDigits literal) : Int)
  else decimal (literalDigits literal)

/-- The values of `ret * 10 + digit` in the loop of `parse_integer`, each before
it is stored in the accumulator. -/
def accumulated : Int → List UInt8 → List Int
  | _, [] => []
  | ret, d :: ds =>
    (ret * 10 + (d.toNat - 0x30 : Nat)) ::
      accumulated (wrapInt64 (ret * 10 + (d.toNat - 0x30 : Nat))) ds

/-- The accumulator after the loop of `parse_integer`. -/
def accumulator (digits : List UInt8) : Int :=
  digits.foldl (fun ret d => wrapInt64 (ret * 10 + (d.toNat - 0x30 : Nat))) 0

/-- Nothing `parse_integer` computes for the literal overflows: neither a step
of the loop nor the negation after it. -/
def NoOverflow (literal : List UInt8) : Prop :=
  (∀ n ∈ accumulated 0 (literalDigits literal), InInt64 n) ∧
    (literal.head? = some minusSign → InInt64 (-accumulator (literalDigits literal)))

namespace ArraySizeLemmas

open ScanningLemmas

/-! ## The accumulator -/

theorem wrapInt64_eq {n : Int} (h : InInt64 n) : wrapInt64 n = n := by
  obtain ⟨hlow, hhigh⟩ := h
  exact Int.bmod_eq_of_le_mul_two (by omega) (by omega)

theorem decimal_mono (digits : List UInt8) (n : Nat) :
    n ≤ digits.foldl (fun n d => n * 10 + (d.toNat - 0x30)) n := by
  induction digits generalizing n with
  | nil => exact Nat.le_refl n
  | cons d ds ih =>
    rw [List.foldl_cons]
    refine Nat.le_trans ?_ (ih _)
    omega

theorem inInt64_natCast (n : Nat) : InInt64 n ↔ n < 2 ^ 63 := by
  unfold InInt64
  omega

/-- No step overflows if and only if the number that is read fits. -/
theorem accumulated_iff (digits : List UInt8) {n : Nat} (hn : n < 2 ^ 63) :
    (∀ x ∈ accumulated n digits, InInt64 x) ↔
      digits.foldl (fun n d => n * 10 + (d.toNat - 0x30)) n < 2 ^ 63 := by
  induction digits generalizing n with
  | nil => exact ⟨fun _ => hn, fun _ _ h => nomatch h⟩
  | cons d ds ih =>
    have hcast : (n : Int) * 10 + (d.toNat - 0x30 : Nat) = (n * 10 + (d.toNat - 0x30) : Nat) := by
      push_cast
      rfl
    rw [accumulated, hcast, List.foldl_cons, List.forall_mem_cons, inInt64_natCast]
    constructor
    · rintro ⟨hnext, hrest⟩
      rw [wrapInt64_eq ((inInt64_natCast _).mpr hnext)] at hrest
      exact (ih hnext).mp hrest
    · intro h
      have hnext := Nat.lt_of_le_of_lt (decimal_mono ds _) h
      refine ⟨hnext, ?_⟩
      rw [wrapInt64_eq ((inInt64_natCast _).mpr hnext)]
      exact (ih hnext).mpr h

theorem accumulator_eq (digits : List UInt8) : accumulator digits = wrapInt64 (decimal digits) :=
  foldl_wrapInt64 digits 0

theorem noOverflow_iff (literal : List UInt8) :
    NoOverflow literal ↔ decimal (literalDigits literal) < 2 ^ 63 := by
  have hiff := accumulated_iff (literalDigits literal) (n := 0) (by decide)
  constructor
  · exact fun h => hiff.mp h.1
  · intro h
    refine ⟨hiff.mpr h, fun _ => ?_⟩
    have hin := (inInt64_natCast _).mpr h
    rw [accumulator_eq, wrapInt64_eq hin]
    obtain ⟨_, hhigh⟩ := hin
    unfold InInt64
    omega

theorem literalValue_inInt64 {literal : List UInt8}
    (h : decimal (literalDigits literal) < 2 ^ 63) : InInt64 (literalValue literal) := by
  unfold literalValue InInt64
  split
  · omega
  · omega

end ArraySizeLemmas

/-! ## Array suffixes -/

/-- What `parse_type` reads at `pos` is a qualified identifier and an array
suffix with `literal` between the brackets. -/
def ArraySuffix (pos : DocumentPosition) (text literal : List UInt8) : Prop :=
  ∃ id before first number last after value,
    placed 0 pos text = before ++ [first, number, last] ++ after ∧
    qualRule (lex pos text) id
      (first.token :: number.token :: last.token :: after.map Place.token) ∧
    first.token.lexeme = .fixed .bracketOpen ∧ number.token.lexeme = .integer value ∧
    last.token.lexeme = .fixed .bracketClose ∧
    literal = (text.drop number.offset).take (lexeme (text.drop number.offset)).2

/-- What `parse_type` does from a state of the parser. -/
def parseTypeFrom {ρ : Type} (rd : StreamReader ρ) (p : Parser (Buffer ρ)) (fuel : Nat) :
    Outcome Exception AstType :=
  ((parseType (scanner (bufferSource rd fuel) fuel) fuel).run p).1

/-- A literal with no digit or outside the range of `int64_t` is refused; any
other gives an array of the size that is written, and nothing overflows. -/
def SizeAsWritten (literal : List UInt8) (o : Outcome Exception AstType) : Prop :=
  (∀ type, o = .ok type → IsNumeral literal ∧ type.isArray = true ∧
    type.arraySize = some (literalValue literal) ∧ NoOverflow literal) ∧
  (literalDigits literal = [] ∨ ¬InInt64 (literalValue literal) → ∃ e, o = .throw e ∧ IsParse e)

namespace ArraySizeLemmas

open ScanningLemmas DecidingLemmas PlacingLemmas SimulationLemmas

theorem parseType_uniform (fuel : Nat) : Uniform fun _ lx => parseType lx fuel :=
  fun _ _ _ _ _ h => parseType_sim h fuel

variable {toks more : List Token} {pos : DocumentPosition} {text literal : List UInt8}

/-- `parse_type` over the tokens of an array suffix. -/
theorem parseType_suffix {id : AstQualifiedIdentifier} {first number last : Token} {value : Int}
    (hqual : qualRule toks id (first :: number :: last :: more))
    (hfirst : first.lexeme = .fixed .bracketOpen) (hnumber : number.lexeme = .integer value)
    (hlast : last.lexeme = .fixed .bracketClose) {fuel : Nat} (hfuel : toks.length < fuel) :
    ((parseType tokenLexer fuel).run ⟨pos, toks⟩).1 =
      .ok { identifier := id, isArray := true, arraySize := some value } := by
  have hnext : nextSymbol (first :: number :: last :: more) = .bracketOpen :=
    congrArg Lexeme.symbol hfirst
  have hF : nextSymbol (first :: number :: last :: more) ≠ .namespaceSep := by
    rw [hnext]
    nofun
  have hans := qual_decides (P := fun _ => True) (Nat.le_refl fuel) ⟨pos, toks⟩ trivial hfuel
  obtain ⟨o, t, hrun⟩ : ∃ o t,
      (parseQualifiedIdentifier tokenLexer fuel).run ⟨pos, toks⟩ = (o, t) := ⟨_, _, rfl⟩
  rw [hrun] at hans
  cases hans with
  | throw _ hnone _ => exact absurd hF (hnone _ _ hqual)
  | outOfFuel hang _ => exact hang.elim
  | ok _ huniq _ =>
    obtain ⟨rfl, htoks⟩ := huniq _ _ hqual hF
    obtain ⟨pos', toks'⟩ := t
    cases htoks
    rw [parseType, bind_ok hrun]
    have hpeek : tokenLexer.peekSymbol.run ⟨pos', first :: number :: last :: more⟩ =
        (.ok .bracketOpen, ⟨first.start, first :: number :: last :: more⟩) := by
      rw [← hnext]
      rfl
    have hopen : (tokenLexer.parseSymbol .bracketOpen).run
        ⟨first.start, first :: number :: last :: more⟩ =
          (.ok (), ⟨first.stop, number :: last :: more⟩) :=
      tokenTake_some (if_pos hfirst)
    have hint : tokenLexer.parseInteger.run ⟨first.stop, number :: last :: more⟩ =
        (.ok value, ⟨number.stop, last :: more⟩) := by
      refine tokenTake_some ?_
      show number.lexeme.takeInteger = some value
      rw [hnumber]
      rfl
    have hclose : (tokenLexer.parseSymbol .bracketClose).run ⟨number.stop, last :: more⟩ =
        (.ok (), ⟨last.stop, more⟩) := tokenTake_some (if_pos hlast)
    rw [bind_ok hpeek]
    refine (congrArg Prod.fst
      ((bind_ok hopen).trans ((bind_ok hint).trans (bind_ok hclose)))).trans ?_
    rfl

/-- The literal of an array suffix: what its digits are and what it denotes. -/
theorem suffix_literal {number : Place} {value : Int}
    (hmem : number ∈ placed 0 pos text) (hvalue : number.token.lexeme = .integer value) :
    let literal := (text.drop number.offset).take (lexeme (text.drop number.offset)).2
    (∀ d ∈ literalDigits literal, isDigit d = true) ∧
      value = wrapInt64 (literalValue literal) := by
  have hlexeme := placed_lexeme hmem
  rw [hvalue] at hlexeme
  obtain ⟨c, cs, htext, hc, hlex⟩ := integer_lexeme (congrArg Lexeme.symbol hlexeme).symm
  rw [hlex] at hlexeme ⊢
  cases hlexeme
  rw [htext]
  have htake : (c :: cs).take ((cs.takeWhile isDigit).length + 1) = c :: cs.takeWhile isDigit := by
    rw [List.take_succ_cons, ← List.prefix_iff_eq_take.mp (List.takeWhile_prefix isDigit)]
  dsimp only
  rw [htake]
  have hdigits : ∀ d ∈ cs.takeWhile isDigit, isDigit d = true := fun d => List.mem_takeWhile_imp
  by_cases hm : c = minusSign
  · subst hm
    exact ⟨hdigits, rfl⟩
  have hfirst : (c :: cs.takeWhile isDigit).head? ≠ some minusSign := by
    simpa using hm
  unfold integerValue literalValue
  rw [if_neg hm, if_neg hfirst]
  by_cases hp : c = plusSign
  · subst hp
    exact ⟨hdigits, rfl⟩
  · have hd : isDigit c = true := by tauto
    have hall : literalDigits (c :: cs.takeWhile isDigit) = c :: cs.takeWhile isDigit := by
      simp [literalDigits, hm, hp]
    rw [if_neg hp, hall]
    exact ⟨List.forall_mem_cons.mpr ⟨hd, hdigits⟩, rfl⟩

variable {ρ : Type} {rd : StreamReader ρ} {p : Parser (Buffer ρ)}

/-- `parse_type` accepts every array suffix, and the size is what the literal
denotes, wrapped to 64 bits. -/
theorem parseType_settles (h : Holds rd p.source text) (hsym : p.nextSymbol = .invalid)
    (hsuffix : ArraySuffix p.pos text literal) :
    (∀ d ∈ literalDigits literal, isDigit d = true) ∧
      ∃ id, Settles (parseTypeFrom rd p)
        (.ok ⟨id, true, some (wrapInt64 (literalValue literal))⟩) := by
  obtain ⟨id, before, first, number, last, after, value, hplaced, hqual, hfirst, hnumber, hlast,
    rfl⟩ := hsuffix
  have hmem : number ∈ placed 0 p.pos text := by
    rw [hplaced]
    simp
  obtain ⟨hdigits, hvalue⟩ := suffix_literal hmem hnumber
  refine ⟨hdigits, id, text.length + 2, fun fuel hfuel => ?_⟩
  obtain ⟨hrun, _⟩ := midway (parseType_uniform fuel) h hsym
    (Nat.lt_of_lt_of_le (Nat.lt_add_of_pos_right Nat.two_pos) hfuel)
  have hshort := lex_length p.pos text
  rw [← hvalue]
  exact hrun.trans (parseType_suffix hqual hfirst hnumber hlast (by omega))

end ArraySizeLemmas

open ArraySizeLemmas

/-- Wherever `parse_type` meets an array suffix, a literal with no digit or out
of range is refused, and any other gives the size that is written without
overflow, if and only if the literal has a digit and is less than 2^63 without
its sign. -/
theorem array_size_iff {ρ : Type} (rd : StreamReader ρ) (p : Parser (Buffer ρ))
    (text literal : List UInt8) (h : Holds rd p.source text) (hsym : p.nextSymbol = .invalid)
    (hsuffix : ArraySuffix p.pos text literal) :
    (∃ o, Settles (parseTypeFrom rd p) o ∧ SizeAsWritten literal o) ↔
      literalDigits literal ≠ [] ∧ decimal (literalDigits literal) < 2 ^ 63 := by
  obtain ⟨hdigits, id, hset⟩ := parseType_settles h hsym hsuffix
  constructor
  · rintro ⟨o, ho, hok, _⟩
    cases ho.unique hset
    obtain ⟨hnumeral, _, _, hfits⟩ := hok _ rfl
    exact ⟨hnumeral.1, (noOverflow_iff literal).mp hfits⟩
  · rintro ⟨hdigit, hfits⟩
    have hin := literalValue_inInt64 hfits
    refine ⟨_, hset, ?_, ?_⟩
    · rintro type htype
      cases htype
      exact ⟨⟨hdigit, hdigits⟩, rfl, congrArg some (wrapInt64_eq hin),
        (noOverflow_iff literal).mpr hfits⟩
    · rintro (hnone | hout)
      · exact absurd hnone hdigit
      · exact absurd hin hout

/-- `B[5]`. -/
def fiveType : List UInt8 := bytes ['B', '[', '5', ']']

theorem array_size_iff_five :
    ∃ o, Settles (parseTypeFrom stdinReader (Parser.init [] (Buffer.init fiveType))) o ∧
      SizeAsWritten (bytes ['5']) o := by
  have hplaced : placed 0 ⟨[], 1, 0⟩ fiveType =
      [⟨⟨.identifier [Char.toUInt8 'B'], ⟨[], 1, 0⟩, ⟨[], 1, 1⟩⟩, 0⟩] ++
        [⟨⟨.fixed .bracketOpen, ⟨[], 1, 1⟩, ⟨[], 1, 2⟩⟩, 1⟩,
          ⟨⟨.integer 5, ⟨[], 1, 2⟩, ⟨[], 1, 3⟩⟩, 2⟩,
          ⟨⟨.fixed .bracketClose, ⟨[], 1, 3⟩, ⟨[], 1, 4⟩⟩, 3⟩] ++
        [⟨⟨.eof, ⟨[], 1, 4⟩, ⟨[], 1, 4⟩⟩, 4⟩] := by decide
  have hsuffix : ArraySuffix ⟨[], 1, 0⟩ fiveType (bytes ['5']) :=
    ⟨⟨[], [Char.toUInt8 'B']⟩, _, _, _, _, _, 5, hplaced,
      ⟨_, _, ⟨_, rfl, rfl⟩, [], _, .nil _, rfl, rfl⟩, rfl, rfl, rfl, rfl⟩
  exact (array_size_iff stdinReader (Parser.init [] (Buffer.init fiveType)) fiveType _
    (holds_init (stdinReader_delivers _)) rfl hsuffix).mpr (by decide)

/-- `B[-]`. -/
def signType : List UInt8 := bytes ['B', '[', '-', ']']

/-- `STRUCT A { x : B[-] }`. -/
def signDocument : List UInt8 :=
  structKeyword ++ bytes [' ', 'A', '\x7b', 'x', ':'] ++ signType ++ [curlyCloseMark]

def signTree : AstRoot :=
  { origin := ⟨[], 1, 0⟩, includes := [], space := ⟨[], []⟩,
    structDecls := [⟨⟨[], 1, 0⟩, [Char.toUInt8 'A'], [⟨⟨[], 1, 9⟩, [Char.toUInt8 'x'],
      ⟨⟨[], [Char.toUInt8 'B']⟩, true, some 0⟩⟩]⟩],
    mapDecls := [], encoDecls := [] }

/-- A sign with no digit is taken for the size 0. -/
theorem sign_accepted :
    ArraySuffix ⟨[], 1, 0⟩ signType [minusSign] ∧
    (¬∃ o, Settles (parseTypeFrom stdinReader (Parser.init [] (Buffer.init signType))) o ∧
      SizeAsWritten [minusSign] o) ∧
    Settles (parse stdinReader signDocument []) (.ok signTree) := by
  have hplaced : placed 0 ⟨[], 1, 0⟩ signType =
      [⟨⟨.identifier [Char.toUInt8 'B'], ⟨[], 1, 0⟩, ⟨[], 1, 1⟩⟩, 0⟩] ++
        [⟨⟨.fixed .bracketOpen, ⟨[], 1, 1⟩, ⟨[], 1, 2⟩⟩, 1⟩,
          ⟨⟨.integer 0, ⟨[], 1, 2⟩, ⟨[], 1, 3⟩⟩, 2⟩,
          ⟨⟨.fixed .bracketClose, ⟨[], 1, 3⟩, ⟨[], 1, 4⟩⟩, 3⟩] ++
        [⟨⟨.eof, ⟨[], 1, 4⟩, ⟨[], 1, 4⟩⟩, 4⟩] := by decide
  have hsuffix : ArraySuffix ⟨[], 1, 0⟩ signType [minusSign] :=
    ⟨⟨[], [Char.toUInt8 'B']⟩, _, _, _, _, _, 0, hplaced,
      ⟨_, _, ⟨_, rfl, rfl⟩, [], _, .nil _, rfl, rfl⟩, rfl, rfl, rfl, rfl⟩
  refine ⟨hsuffix, ?_, ?_⟩
  · obtain ⟨_, id, hset⟩ := parseType_settles (p := Parser.init [] (Buffer.init signType))
      (holds_init (stdinReader_delivers _)) rfl hsuffix
    rintro ⟨o, ho, hok, _⟩
    cases ho.unique hset
    exact (hok _ rfl).1.1 rfl
  · refine (CorrectnessLemmas.settles_iff_derives (stdinReader_delivers _) [] _).mpr ?_
    have htokens : tokens [] signDocument =
        [⟨.fixed .structKw, ⟨[], 1, 0⟩, ⟨[], 1, 6⟩⟩,
          ⟨.identifier [Char.toUInt8 'A'], ⟨[], 1, 7⟩, ⟨[], 1, 8⟩⟩,
          ⟨.fixed .curlyOpen, ⟨[], 1, 8⟩, ⟨[], 1, 9⟩⟩,
          ⟨.identifier [Char.toUInt8 'x'], ⟨[], 1, 9⟩, ⟨[], 1, 10⟩⟩,
          ⟨.fixed .colon, ⟨[], 1, 10⟩, ⟨[], 1, 11⟩⟩,
          ⟨.identifier [Char.toUInt8 'B'], ⟨[], 1, 11⟩, ⟨[], 1, 12⟩⟩,
          ⟨.fixed .bracketOpen, ⟨[], 1, 12⟩, ⟨[], 1, 13⟩⟩,
          ⟨.integer 0, ⟨[], 1, 13⟩, ⟨[], 1, 14⟩⟩,
          ⟨.fixed .bracketClose, ⟨[], 1, 14⟩, ⟨[], 1, 15⟩⟩,
          ⟨.fixed .curlyClose, ⟨[], 1, 15⟩, ⟨[], 1, 16⟩⟩,
          ⟨.eof, ⟨[], 1, 16⟩, ⟨[], 1, 16⟩⟩] := by decide
    have htype : typeRule ((tokens [] signDocument).drop 5)
        ⟨⟨[], [Char.toUInt8 'B']⟩, true, some 0⟩ ((tokens [] signDocument).drop 9) := by
      rw [htokens]
      exact ⟨_, _, ⟨_, _, ⟨_, rfl, rfl⟩, [], _, .nil _, rfl, rfl⟩,
        Or.inl ⟨_, _, ⟨(), _, ⟨_, rfl, rfl⟩, _, _, ⟨_, rfl, rfl⟩, (), _, ⟨_, rfl, rfl⟩, rfl, rfl⟩,
          rfl, rfl⟩⟩
    have hfield : structFieldRule ((tokens [] signDocument).drop 3)
        ⟨⟨[], 1, 9⟩, [Char.toUInt8 'x'], ⟨⟨[], [Char.toUInt8 'B']⟩, true, some 0⟩⟩
        ((tokens [] signDocument).drop 9) := by
      rw [htokens] at htype ⊢
      exact ⟨_, _, ⟨rfl, rfl⟩, _, _, ⟨_, rfl, rfl⟩, (), _, ⟨_, rfl, rfl⟩, _, _, htype, rfl, rfl⟩
    rw [htokens] at hfield ⊢
    exact ⟨_, [], _, .nil _, _, _, Or.inr ⟨rfl, rfl⟩, [.struct _], _,
      .cons (Or.inl ⟨_, _, ⟨_, _, ⟨rfl, rfl⟩, (), _, ⟨_, rfl, rfl⟩, _, _, ⟨_, rfl, rfl⟩, (), _,
        ⟨_, rfl, rfl⟩, [_], _, .cons hfield (.nil _), (), _, ⟨_, rfl, rfl⟩, rfl, rfl⟩, rfl, rfl⟩)
        (.nil _), (), _, ⟨rfl, rfl⟩, rfl, rfl⟩

end Ian.Happy
