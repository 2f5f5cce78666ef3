import Ian.Happy.ReadBack
import Ian.Happy.ArraySize
import Ian.Happy.Stopping

/-!
# Reading printed parts back

Parts of a printed document, read by the loop of the parser that is meant for
them.

* The lines of includes give the same paths back exactly if no path has a single
  quote or a backslash (`includes_read_back_iff`): the printer quotes a path
  without escaping it.
* The lines of structure fields are always read back (`fields_read_back`).
-/

namespace Ian.Happy

open Ian.Lib Run Rule

/-! ## Includes -/

/-- The include loop of `parse_document`. -/
def parseIncludes {σ : Type} (lx : Lexer σ) (fuel : Nat) : Run σ Exception (List AstInclude) :=
  loop (parseIncludesStep lx) fuel []

/-- The include loop at the start of a stream. -/
def parseIncludesOf {ρ : Type} (rd : StreamReader ρ) (r : ρ) (filename : List UInt8)
    (fuel : Nat) : Outcome Exception (List AstInclude) :=
  ((parseIncludes (scanner (bufferSource rd fuel) fuel) fuel).run
    (Parser.init filename (Buffer.init r))).1

/-- The lines of includes, as `operator <<` for `AstRoot` writes them. -/
def printIncludes (incs : List AstInclude) : List UInt8 :=
  incs.flatMap fun node => node.print ++ [lineFeed]

example (root : AstRoot) : root.print = printIncludes root.includes ++ root.space.printNamespace ++
    root.structDecls.flatMap (fun node => node.print ++ [lineFeed]) := rfl

namespace FragmentLemmas

open LexingLemmas ScanningLemmas DecidingLemmas CorrectnessLemmas PlacingLemmas PrintingLemmas
  SimulationLemmas

theorem parseIncludes_uniform (fuel : Nat) : Uniform fun _ lx => parseIncludes lx fuel := by
  intro σ τ lx lx' R h
  refine Sim.loop (fun includes => ?_) fuel _
  refine Sim.bind h.peekSymbol fun s => Sim.ite ?_ (Sim.pure _)
  exact Sim.bind (parseInclude_sim h) fun _ => Sim.pure _

variable {toks more left : List Token}

/-- The tokens of an include are read as that include. -/
theorem include_iff {tok tok' : Token} {path : AstString} (h : tok.lexeme = .fixed .includeKw)
    (h' : tok'.lexeme = .string path) {inc : AstInclude} :
    includeRule (tok :: tok' :: more) inc left ↔ inc = ⟨tok.start, path⟩ ∧ left = more := by
  constructor
  · rintro ⟨_, _, ⟨rfl, rfl⟩, _, _, ⟨_, heq, _⟩, path', _, ⟨_, heq', htake⟩, rfl, rfl⟩
    cases heq
    cases heq'
    rw [h'] at htake
    cases htake
    exact ⟨rfl, rfl⟩
  · rintro ⟨rfl, rfl⟩
    exact ⟨_, _, ⟨rfl, rfl⟩, (), _, ⟨_, rfl, takeFixed_of_eq h⟩, path, _,
      ⟨_, rfl, by rw [h']; rfl⟩, rfl, rfl⟩

/-- The tokens of plain includes are read as includes of the same paths. -/
theorem includes_read {incs : List AstInclude}
    (h : toks.map Token.lexeme = incs.flatMap includeLexemes) (more : List Token) :
    ∃ incs' : List AstInclude, incs'.map AstInclude.path = incs.map AstInclude.path ∧
      Many includeRule (toks ++ more) incs' more := by
  induction incs generalizing toks with
  | nil =>
    cases List.map_eq_nil_iff.mp h
    exact ⟨[], rfl, .nil _⟩
  | cons inc incs ih =>
    obtain ⟨tok, toks, rfl, htok, h⟩ := List.map_eq_cons_iff.mp h
    obtain ⟨tok', toks, rfl, htok', h⟩ := List.map_eq_cons_iff.mp h
    obtain ⟨incs', hpaths, hincs⟩ := ih h
    refine ⟨⟨tok.start, inc.path⟩ :: incs', ?_, .cons ?_ hincs⟩
    · rw [List.map_cons, List.map_cons, hpaths]
    · exact (include_iff htok htok').mpr ⟨rfl, rfl⟩

/-- Paths that are read back from the lines of their includes are plain. -/
theorem plain_of_includes {incs incs' : List AstInclude} {pos : DocumentPosition}
    (h : Many includeRule (lex pos (printIncludes incs)) incs' left)
    (hpaths : incs'.map AstInclude.path = incs.map AstInclude.path) :
    ∀ inc ∈ incs, plain inc.path = true := by
  induction incs generalizing pos incs' with
  | nil => exact fun _ h => nomatch h
  | cons inc incs ih =>
    have hline : printIncludes (inc :: incs) = inc.print ++ [lineFeed] ++ printIncludes incs :=
      List.flatMap_cons
    rw [hline] at h
    cases h with
    | nil => cases hpaths
    | @cons _ mid _ inc' incs' hinc hincs =>
      obtain ⟨hpath, hpaths⟩ := List.cons.inj hpaths
      have hplain : plain inc.path = true := by
        have hkeyword : wordLexeme includeKeyword = .fixed .includeKw := by decide
        obtain ⟨toks, stop, hlex, htoks⟩ := (spells_keyword spelled_include hkeyword _).reads pos
        obtain ⟨tok, toks, rfl, _, htoks⟩ := List.map_eq_cons_iff.mp htoks
        cases List.map_eq_nil_iff.mp htoks
        rw [print_include, hlex] at hinc
        obtain ⟨n, hread⟩ := path_read hinc
        rw [hpath] at hread
        exact plain_of_stringRest hread
      obtain ⟨toks, stop, hlex, htoks⟩ := (spells_include hplain (printIncludes incs)).reads pos
      obtain ⟨tok, toks, rfl, htok, htoks⟩ := List.map_eq_cons_iff.mp htoks
      obtain ⟨tok', toks, rfl, htok', htoks⟩ := List.map_eq_cons_iff.mp htoks
      cases List.map_eq_nil_iff.mp htoks
      rw [hlex] at hinc
      obtain ⟨_, rfl⟩ := (include_iff htok htok').mp hinc
      intro inc'' hmem
      rcases List.mem_cons.mp hmem with rfl | hmem
      · exact hplain
      · exact ih hincs hpaths inc'' hmem

variable {ρ : Type} {rd : StreamReader ρ} {r : ρ} {s : List UInt8}

/-- With enough fuel the include loop decides the rule of includes. -/
theorem includes_answer (h : Delivers rd r s) (filename : List UInt8) {fuel : Nat}
    (hfuel : s.length + 2 ≤ fuel) :
    ∃ t, Answer TokenState.toks IsParse (fun toks => nextSymbol toks ≠ .includeKw)
      (many includeRule) (fun toks => ∃ as rest, Many includeRule toks as rest ∧ IncludeHangs rest)
      (tokens filename s) (parseIncludesOf rd r filename fuel, t) := by
  obtain ⟨_, t, hans, _⟩ := midway_answer (parseIncludes_uniform fuel)
    (includes_decides (Nat.le_refl fuel)) (p := Parser.init filename (Buffer.init r))
    (holds_init h) rfl hfuel
  exact ⟨t, hans⟩

theorem plain_of_settles {filename : List UInt8} {incs incs' : List AstInclude}
    (h : Delivers rd r (printIncludes incs))
    (hset : Settles (parseIncludesOf rd r filename) (.ok incs'))
    (hpaths : incs'.map AstInclude.path = incs.map AstInclude.path) :
    ∀ inc ∈ incs, plain inc.path = true := by
  obtain ⟨enough, hset⟩ := hset
  obtain ⟨t, hans⟩ := includes_answer h filename (Nat.le_max_right enough _)
  rw [hset _ (Nat.le_max_left enough _)] at hans
  cases hans with
  | ok hread _ _ => exact plain_of_includes hread hpaths

/-- The text of a string literal: its delimiter and backslashes are escaped. -/
def escape (delim : UInt8) (value : AstString) : List UInt8 :=
  value.flatMap fun c => if c = delim ∨ c = backslash then [backslash, c] else [c]

end FragmentLemmas

open FragmentLemmas PrintingLemmas CorrectnessLemmas DecidingLemmas

/-- Every string of bytes is denoted by a literal of either quote, so every path
can come out of `parse_include`. -/
theorem every_string_denoted (value : AstString) {delim : UInt8}
    (hdelim : delim = singleQuote ∨ delim = doubleQuote) (rest : List UInt8) :
    stringRest delim false (escape delim value ++ delim :: rest) =
      some (value, (escape delim value).length + 1) := by
  have hsame : ∀ c, c = delim ∨ c = backslash → unescape c = c := by
    rintro c (rfl | rfl)
    · rcases hdelim with rfl | rfl <;> rfl
    · rfl
  have hslash : backslash ≠ delim := by
    rcases hdelim with rfl | rfl <;> decide
  induction value with
  | nil => simp [escape, stringRest]
  | cons c value ih =>
    by_cases hc : c = delim ∨ c = backslash
    · have htext : escape delim (c :: value) = backslash :: c :: escape delim value := by
        simp [escape, hc]
      rw [htext, List.cons_append, List.cons_append, stringRest, if_neg hslash, if_pos rfl,
        stringRest, ih, hsame c hc]
      rfl
    · have htext : escape delim (c :: value) = c :: escape delim value := by
        simp [escape, hc]
      rw [htext, List.cons_append, stringRest, if_neg fun h => hc (Or.inl h),
        if_neg fun h => hc (Or.inr h), ih]
      rfl

/-- The lines of includes are accepted by the include loop of `parse_document`
and give the same list of paths back, if and only if no path has a single quote
or a backslash in it. -/
theorem includes_read_back_iff {ρ : Type} (rd : StreamReader ρ) (r : ρ) (filename : List UInt8)
    (incs : List AstInclude) (h : Delivers rd r (printIncludes incs)) :
    (∃ incs' : List AstInclude, Settles (parseIncludesOf rd r filename) (.ok incs') ∧
      incs'.map AstInclude.path = incs.map AstInclude.path) ↔
      ∀ inc ∈ incs, plain inc.path = true := by
  constructor
  · rintro ⟨incs', hset, hpaths⟩
    exact plain_of_settles h hset hpaths
  · intro hplain
    obtain ⟨toks, stop, hlex, htoks⟩ := (spells_includes hplain []).reads ⟨filename, 1, 0⟩
    rw [List.append_nil] at hlex
    obtain ⟨incs', hpaths, hread⟩ := includes_read htoks (lex stop [])
    refine ⟨incs', ⟨(printIncludes incs).length + 2, fun fuel hfuel => ?_⟩, hpaths⟩
    obtain ⟨t, hans⟩ := includes_answer h filename hfuel
    have hread' : Many includeRule (tokens filename (printIncludes incs)) incs' (lex stop []) := by
      rw [← hlex] at hread
      exact hread
    have hnext : nextSymbol (lex stop []) ≠ .includeKw := nofun
    generalize parseIncludesOf rd r filename fuel = o at hans ⊢
    cases hans with
    | ok _ huniq _ => rw [(huniq _ _ hread' hnext).1]
    | throw _ hnone _ => exact absurd hnext (hnone _ _ hread')
    | outOfFuel _ hnone => exact absurd hnext (hnone _ _ hread')

theorem includes_read_back_iff_plain :
    ∃ incs' : List AstInclude,
      Settles (parseIncludesOf stdinReader (printIncludes plainTree.includes) []) (.ok incs') ∧
        incs'.map AstInclude.path = [[Char.toUInt8 'a']] :=
  (includes_read_back_iff stdinReader _ [] plainTree.includes (stdinReader_delivers _)).mpr
    (by decide)

/-- `INCLUDE "'"`. -/
def quotedExample : List UInt8 :=
  includeKeyword ++ [spaceByte, doubleQuote, singleQuote, doubleQuote]

def quotedTree : AstRoot :=
  { origin := ⟨[], 1, 0⟩, includes := [⟨⟨[], 1, 0⟩, [singleQuote]⟩], space := ⟨[], []⟩,
    structDecls := [], mapDecls := [], encoDecls := [] }

/-- The path `'` comes out of the parser, and its printed line does not give it
back. -/
theorem quote_not_read_back :
    Settles (parse stdinReader quotedExample []) (.ok quotedTree) ∧
      ¬∃ incs' : List AstInclude,
        Settles (parseIncludesOf stdinReader (printIncludes quotedTree.includes) []) (.ok incs') ∧
          incs'.map AstInclude.path = quotedTree.includes.map AstInclude.path := by
  constructor
  · have htokens : tokens [] quotedExample =
        [⟨.fixed .includeKw, ⟨[], 1, 0⟩, ⟨[], 1, 7⟩⟩,
          ⟨.string [singleQuote], ⟨[], 1, 8⟩, ⟨[], 1, 11⟩⟩,
          ⟨.eof, ⟨[], 1, 11⟩, ⟨[], 1, 11⟩⟩] := by decide
    refine (settles_iff_derives (stdinReader_delivers _) [] _).mpr ?_
    rw [htokens]
    exact ⟨_, [_], _, .cons ((include_iff rfl rfl).mpr ⟨rfl, rfl⟩) (.nil _), _, _,
      Or.inr ⟨rfl, rfl⟩, [], _, .nil _, (), _, ⟨rfl, rfl⟩, rfl, rfl⟩
  · rintro ⟨incs', hset, hpaths⟩
    have hplain := plain_of_settles (stdinReader_delivers _) hset hpaths _ List.mem_cons_self
    cases hplain

/-! ## Structure fields -/

/-- The field lines of a structure, as `operator <<` for `AstStruct` writes them. -/
def printFields (fields : List AstStructField) : List UInt8 :=
  fields.flatMap fun node => [spaceByte] ++ node.print ++ [lineFeed]

example (data : AstStruct) : data.print = dataKeyword ++ [spaceByte] ++ data.identifier ++
    [lineFeed, curlyOpenMark, lineFeed] ++ printFields data.fields ++ [curlyCloseMark] := rfl

open PrintingLemmas in
/-- A field whose names are words, no keyword among them, and whose array size,
if it has one, fits in an `int64_t` with either sign. -/
structure AstStructField.Readable (field : AstStructField) : Prop where
  identifier : IsWord field.identifier
  space : ∀ word ∈ field.type.identifier.space, IsWord word
  name : IsWord field.type.identifier.name
  size : field.type.isArray = true → ∃ size, field.type.arraySize = some size ∧
    -(2 ^ 63 - 1) ≤ size ∧ size ≤ 2 ^ 63 - 1

/-- The fields agree in everything but their origins; `array_size` counts for
arrays only. -/
def SameField (field field' : AstStructField) : Prop :=
  field'.identifier = field.identifier ∧ field'.type.identifier = field.type.identifier ∧
    field'.type.isArray = field.type.isArray ∧
    (field.type.isArray = true → field'.type.arraySize = field.type.arraySize)

namespace FragmentLemmas

open ArraySizeLemmas PrintingLemmas ScanningLemmas DecidingLemmas PlacingLemmas LexingLemmas

/-! ### Printed integers -/

theorem digit_byte {c : Char} (h : c.isDigit = true) :
    isDigit c.toUInt8 = true ∧ c.toUInt8.toNat = c.toNat := by
  simp only [Char.isDigit, ge_iff_le, Bool.and_eq_true, decide_eq_true_eq,
    UInt32.le_iff_toNat_le] at h
  obtain ⟨hlow, hhigh⟩ := h
  have hvalue : c.toUInt8.toNat = c.toNat := by
    rw [Char.toUInt8, UInt32.toNat_toUInt8]
    exact Nat.mod_eq_of_lt (Nat.lt_of_le_of_lt hhigh (by decide))
  refine ⟨?_, hvalue⟩
  simp only [isDigit, Bool.and_eq_true, decide_eq_true_eq, UInt8.le_iff_toNat_le, hvalue]
  exact ⟨hlow, hhigh⟩

theorem bytes_digits {cs : List Char} (h : ∀ c ∈ cs, c.isDigit = true) (n : Nat) :
    (∀ b ∈ bytes cs, isDigit b = true) ∧
      (bytes cs).foldl (fun n d => n * 10 + (d.toNat - 0x30)) n = Nat.ofDigitChars 10 cs n := by
  induction cs generalizing n with
  | nil => exact ⟨fun _ h => (nomatch h), rfl⟩
  | cons c cs ih =>
    obtain ⟨hdigit, hvalue⟩ := digit_byte (h c List.mem_cons_self)
    obtain ⟨hdigits, hfold⟩ := ih (fun c' hc => h c' (.tail _ hc)) (10 * n + (c.toNat - 0x30))
    constructor
    · exact List.forall_mem_cons.mpr ⟨hdigit, hdigits⟩
    · rw [Nat.ofDigitChars_cons]
      refine Eq.trans ?_ hfold
      show (bytes cs).foldl _ (n * 10 + (c.toUInt8.toNat - 0x30)) = _
      rw [hvalue, Nat.mul_comm]

/-- The digits of a natural number denote it. -/
theorem print_natural (n : Nat) :
    ∃ d ds, bytes (Nat.toDigits 10 n) = d :: ds ∧ (∀ b ∈ d :: ds, isDigit b = true) ∧
      decimal (d :: ds) = n := by
  obtain ⟨c, cs, hdigits⟩ := List.exists_cons_of_ne_nil (Nat.toDigits_ne_nil (n := n) (b := 10))
  have hdigit : ∀ c ∈ Nat.toDigits 10 n, c.isDigit = true :=
    fun c hc => Nat.isDigit_of_mem_toDigits (by decide) (by decide) hc
  obtain ⟨hall, hvalue⟩ := bytes_digits hdigit 0
  rw [hdigits] at hall hvalue ⊢
  refine ⟨_, _, rfl, hall, ?_⟩
  rw [← Nat.ofDigitChars_toDigits (b := 10) (n := n) (by decide) (by decide), hdigits]
  exact hvalue

/-- A printed integer is a literal that denotes it. -/
theorem printInteger_literal (n : Int) :
    ∃ c ds, printInteger n = c :: ds ∧ (isDigit c = true ∨ c = minusSign) ∧
      (∀ b ∈ ds, isDigit b = true) ∧ integerValue c ds = n := by
  cases n with
  | ofNat m =>
    obtain ⟨d, ds, hdigits, hall, hvalue⟩ := print_natural m
    obtain ⟨hd, hds⟩ := List.forall_mem_cons.mp hall
    refine ⟨d, ds, ?_, Or.inl hd, hds, ?_⟩
    · rw [← hdigits]
      simp [printInteger, Int.repr]
    · rw [integerValue, if_neg (byte_ne hd (by decide)), if_neg (byte_ne hd (by decide)),
        hvalue]
      rfl
  | negSucc m =>
    obtain ⟨d, ds, hdigits, hall, hvalue⟩ := print_natural (m + 1)
    refine ⟨minusSign, d :: ds, ?_, Or.inr rfl, hall, ?_⟩
    · rw [← hdigits]
      simp [printInteger, Int.repr, bytes]
      rfl
    · rw [integerValue, if_pos rfl, hvalue]
      rfl

theorem lexeme_integer {c : UInt8} {ds rest : List UInt8}
    (hc : isDigit c = true ∨ c = minusSign) (hds : ∀ b ∈ ds, isDigit b = true)
    (hrest : rest.head?.any isDigit = false) (hdot : rest.head? ≠ some namespaceSepMark) :
    lexeme (c :: (ds ++ rest)) = (.integer (wrapInt64 (integerValue c ds)), ds.length + 1) := by
  have hnul : c ≠ nul := by
    rcases hc with hc | rfl
    · exact byte_ne hc (by decide)
    · decide
  have hnumber : isDigit c = true ∨ c = minusSign ∨ c = plusSign := hc.imp_right Or.inl
  unfold lexeme
  dsimp only
  rw [if_neg hnul, if_pos hnumber, takeWhile_run hds hrest, List.drop_left, if_neg hdot]

theorem spells_integer {n : Int} (hn : InInt64 n) {rest : List UInt8}
    (hrest : rest.head?.any isDigit = false) (hdot : rest.head? ≠ some namespaceSepMark) :
    Spells (printInteger n ++ rest) [.integer n] rest := by
  obtain ⟨c, ds, hprint, hc, hds, hvalue⟩ := printInteger_literal n
  have hlexeme := lexeme_integer hc hds hrest hdot
  rw [hvalue, wrapInt64_eq hn] at hlexeme
  have hblank : isBlank c = false := by
    rcases hc with hc | rfl
    · exact isBlank_of_class hc (by decide)
    · decide
  have hspells := spells_token hblank hlexeme
  rw [List.drop_left] at hspells
  rw [hprint]
  exact hspells

/-! ### Printed fields -/

/-- The tokens of an array suffix. -/
def sizeLexemes (type : AstType) : List Lexeme :=
  if type.isArray then
    [.fixed .bracketOpen, .integer (type.arraySize.getD 0), .fixed .bracketClose]
  else []

/-- The tokens of a field. -/
def fieldLexemes (field : AstStructField) : List Lexeme :=
  [.identifier field.identifier, .fixed .colon] ++ qualLexemes field.type.identifier ++
    sizeLexemes field.type

theorem spells_sign {c : UInt8} {symbol : Symbol} (hblank : isBlank c = false)
    (hsign : ∀ cs, lexeme (c :: cs) = (.fixed symbol, 1)) (rest : List UInt8) :
    Spells (c :: rest) [.fixed symbol] rest := spells_token hblank (n := 0) (hsign rest)

theorem spells_type {type : AstType} (hspace : ∀ word ∈ type.identifier.space, IsWord word)
    (hname : IsWord type.identifier.name)
    (hsize : type.isArray = true → ∃ size, type.arraySize = some size ∧
      -(2 ^ 63 - 1) ≤ size ∧ size ≤ 2 ^ 63 - 1) (rest : List UInt8) :
    Spells (type.print ++ lineFeed :: rest) (qualLexemes type.identifier ++ sizeLexemes type)
      (lineFeed :: rest) := by
  obtain ⟨⟨space, name⟩, isArray, arraySize⟩ := type
  cases isArray with
  | false =>
    have hqual := spells_qual hspace hname (lineFeed :: rest) rfl
    have htext : AstType.print ⟨⟨space, name⟩, false, arraySize⟩ ++ lineFeed :: rest =
        AstQualifiedIdentifier.print ⟨space, name⟩ ++ lineFeed :: rest := by
      simp [AstType.print]
    rw [htext]
    exact hqual.trans (Spells.refl _)
  | true =>
    obtain ⟨size, rfl, hlow, hhigh⟩ := hsize rfl
    have hqual := spells_qual hspace hname
      (bracketOpenMark :: (printInteger size ++ bracketCloseMark :: lineFeed :: rest)) rfl
    have hopen := spells_sign (c := bracketOpenMark) (by decide) (fun _ => rfl)
      (printInteger size ++ bracketCloseMark :: lineFeed :: rest)
    have hinteger : Spells (printInteger size ++ bracketCloseMark :: lineFeed :: rest) _ _ :=
      spells_integer ⟨by omega, by omega⟩ rfl (by rw [List.head?_cons]; decide)
    have hclose := spells_sign (c := bracketCloseMark) (by decide) (fun _ => rfl)
      (lineFeed :: rest)
    have htext : AstType.print ⟨⟨space, name⟩, true, some size⟩ ++ lineFeed :: rest =
        AstQualifiedIdentifier.print ⟨space, name⟩ ++
          bracketOpenMark :: (printInteger size ++ bracketCloseMark :: lineFeed :: rest) := by
      simp [AstType.print]
    rw [htext]
    exact hqual.trans (hopen.trans (hinteger.trans hclose))

theorem spells_field {field : AstStructField} (h : field.Readable) (rest : List UInt8) :
    Spells ([spaceByte] ++ field.print ++ [lineFeed] ++ rest) (fieldLexemes field) rest := by
  have htext : [spaceByte] ++ field.print ++ [lineFeed] ++ rest = spaceByte ::
      (field.identifier ++
        colonMark :: spaceByte :: (field.type.print ++ lineFeed :: rest)) := by
    simp [AstStructField.print]
  have hidentifier := spells_identifier h.identifier
    (colonMark :: spaceByte :: (field.type.print ++ lineFeed :: rest)) rfl
  have hcolon := (spells_sign (c := colonMark) (by decide) (fun _ => rfl)
    (spaceByte :: (field.type.print ++ lineFeed :: rest))).blank (Or.inl rfl)
  have htype := (spells_type h.space h.name h.size rest).blank (Or.inr rfl)
  rw [htext]
  exact (spells_blank (Or.inl rfl) _).trans (hidentifier.trans (hcolon.trans htype))

theorem spells_fields {fields : List AstStructField} (h : ∀ field ∈ fields, field.Readable)
    (rest : List UInt8) :
    Spells (printFields fields ++ rest) (fields.flatMap fieldLexemes) rest := by
  induction fields with
  | nil => exact Spells.refl rest
  | cons field fields ih =>
    have htext : printFields (field :: fields) ++ rest =
        [spaceByte] ++ field.print ++ [lineFeed] ++ (printFields fields ++ rest) := by
      simp [printFields]
    rw [htext, List.flatMap_cons]
    exact (spells_field (h field List.mem_cons_self) _).trans
      (ih fun field' hmem => h field' (.tail _ hmem))

/-! ### Reading the tokens back -/

theorem type_read {type : AstType}
    (h : toks.map Token.lexeme = qualLexemes type.identifier ++ sizeLexemes type)
    (hsize : type.isArray = true → type.arraySize.isSome = true) (more : List Token) :
    ∃ type' : AstType, typeRule (toks ++ more) type' more ∧ type'.identifier = type.identifier ∧
      type'.isArray = type.isArray ∧
      (type.isArray = true → type'.arraySize = type.arraySize) := by
  obtain ⟨identifier, isArray, arraySize⟩ := type
  obtain ⟨qtoks, stoks, rfl, hqtoks, hstoks⟩ := List.map_eq_append_iff.mp h
  rw [List.append_assoc]
  have hqual := qual_read hqtoks (stoks ++ more)
  cases isArray with
  | false =>
    cases List.map_eq_nil_iff.mp hstoks
    exact ⟨⟨identifier, false, none⟩, ⟨identifier, _, hqual, Or.inr ⟨rfl, rfl⟩⟩, rfl, rfl, nofun⟩
  | true =>
    obtain ⟨size, rfl⟩ := Option.isSome_iff_exists.mp (hsize rfl)
    obtain ⟨first, stoks, rfl, hfirst, hstoks⟩ := List.map_eq_cons_iff.mp hstoks
    obtain ⟨number, stoks, rfl, hnumber, hstoks⟩ := List.map_eq_cons_iff.mp hstoks
    obtain ⟨last, stoks, rfl, hlast, hstoks⟩ := List.map_eq_cons_iff.mp hstoks
    cases List.map_eq_nil_iff.mp hstoks
    have harray : arrayRule (first :: number :: last :: more) size more :=
      ⟨(), _, ⟨_, rfl, takeFixed_of_eq hfirst⟩, size, _, ⟨_, rfl, by rw [hnumber]; rfl⟩, (), _,
        ⟨_, rfl, takeFixed_of_eq hlast⟩, rfl, rfl⟩
    exact ⟨⟨identifier, true, some size⟩,
      ⟨identifier, _, hqual, Or.inl ⟨size, more, harray, rfl, rfl⟩⟩, rfl, rfl, fun _ => rfl⟩

theorem field_read {field : AstStructField} (hfield : field.Readable)
    (h : toks.map Token.lexeme = fieldLexemes field) (more : List Token) :
    ∃ field', SameField field field' ∧ structFieldRule (toks ++ more) field' more := by
  obtain ⟨tok, toks, rfl, htok, h⟩ := List.map_eq_cons_iff.mp h
  obtain ⟨tok', toks, rfl, htok', h⟩ := List.map_eq_cons_iff.mp h
  have hsize : field.type.isArray = true → field.type.arraySize.isSome = true := by
    intro harray
    obtain ⟨size, hsome, _⟩ := hfield.size harray
    rw [hsome]
    rfl
  obtain ⟨type', htype, hid, harray, hsame⟩ := type_read h hsize more
  refine ⟨⟨tok.start, field.identifier, type'⟩, ⟨rfl, hid, harray, hsame⟩, ?_⟩
  exact ⟨_, _, ⟨rfl, rfl⟩, _, _, ⟨tok, rfl, by rw [htok]; rfl⟩, (), _,
    ⟨tok', rfl, takeFixed_of_eq htok'⟩, type', more, htype, rfl, rfl⟩

theorem fields_read {fields : List AstStructField}
    (hfields : ∀ field ∈ fields, field.Readable)
    (h : toks.map Token.lexeme = fields.flatMap fieldLexemes) (more : List Token) :
    ∃ fields', List.Forall₂ SameField fields fields' ∧
      Many structFieldRule (toks ++ more) fields' more := by
  induction fields generalizing toks with
  | nil =>
    cases List.map_eq_nil_iff.mp h
    exact ⟨[], .nil, .nil _⟩
  | cons field fields ih =>
    obtain ⟨ftoks, toks, rfl, hftoks, htoks⟩ := List.map_eq_append_iff.mp h
    obtain ⟨fields', hsame, hmany⟩ := ih (fun f hmem => hfields f (.tail _ hmem)) htoks
    obtain ⟨field', hsame', hread⟩ := field_read (hfields field List.mem_cons_self) hftoks
      (toks ++ more)
    rw [List.append_assoc]
    exact ⟨field' :: fields', .cons hsame' hsame, .cons hread hmany⟩

theorem parseFields_uniform (fuel : Nat) :
    Uniform fun _ lx => parseFields lx fuel (parseStructField lx fuel) :=
  fun _ _ _ _ _ h => SimulationLemmas.parseFields_sim h fuel
    (SimulationLemmas.parseStructField_sim h fuel)

end FragmentLemmas

open PlacingLemmas StoppingLemmas

/-- The field lines of a structure, followed by its closing bracket and any
text, are read by the field loop of `parse_struct` as the same fields, whatever
the state the loop starts in; and the loop stops at that bracket. -/
theorem fields_read_back {ρ : Type} (rd : StreamReader ρ) (p : Parser (Buffer ρ))
    (fields : List AstStructField) (rest : List UInt8)
    (hfields : ∀ field ∈ fields, field.Readable)
    (h : Holds rd p.source (printFields fields ++ curlyCloseMark :: rest))
    (hsym : p.nextSymbol = .invalid) :
    ∃ fields', List.Forall₂ SameField fields fields' ∧ ∃ enough, ∀ fuel, enough ≤ fuel →
      ∃ p', (parseFields (scanner (bufferSource rd fuel) fuel) fuel
          (parseStructField (scanner (bufferSource rd fuel) fuel) fuel)).run p = (.ok fields', p') ∧
        Holds rd p'.source (curlyCloseMark :: rest) := by
  obtain ⟨mid, htext, hplaced⟩ := spells_fields hfields (curlyCloseMark :: rest)
  obtain ⟨all, stop, hall, hlexemes⟩ := hplaced 0 p.pos
  have hlex : lex p.pos (printFields fields ++ curlyCloseMark :: rest) =
      all.map Place.token ++ lex stop (curlyCloseMark :: rest) := by
    rw [← placed_token 0 p.pos, hall, List.map_append, placed_token]
  obtain ⟨fields', hsame, hread⟩ := fields_read hfields
    (by rw [List.map_map]; exact hlexemes) (lex stop (curlyCloseMark :: rest))
  rw [← hlex] at hread
  refine ⟨fields', hsame, (printFields fields ++ curlyCloseMark :: rest).length + 2,
    fun fuel hfuel => ?_⟩
  have hclose : nextSymbol (lex stop (curlyCloseMark :: rest)) = .curlyClose := rfl
  obtain ⟨n, t, hans, hstands⟩ := midway_answer (parseFields_uniform fuel)
    (structFields_decides (Nat.le_refl fuel)) h hsym hfuel
  obtain ⟨o, p', hrun⟩ : ∃ o p', (parseFields (scanner (bufferSource rd fuel) fuel) fuel
      (parseStructField (scanner (bufferSource rd fuel) fuel) fuel)).run p = (o, p') := ⟨_, _, rfl⟩
  rw [hrun] at hans hstands
  cases hans with
  | throw _ hnone _ => exact absurd hclose (hnone _ _ hread)
  | outOfFuel hang _ => exact hang.elim
  | ok _ huniq _ =>
    obtain ⟨rfl, htoks⟩ := huniq _ _ hread hclose
    refine ⟨p', hrun, ?_⟩
    -- The loop ends with a look at the bracket, so the cursor is there.
    have hcached : Cached p' := parseFields_returns
      (peekSymbol_cached (bufferSource rd fuel) fuel) fuel _ _ _ _ hrun
    obtain ⟨tok, more, hhead⟩ := placed_head (0 + mid.length) stop (curlyCloseMark :: rest)
    rw [hhead] at hall
    have hoffset := stands_offset hstands hcached (hall ▸ List.suffix_append all _) (by
      rw [← htoks, ← placed_length (0 + mid.length), hhead, List.length_cons])
    have hblank : blankLength (curlyCloseMark :: rest) = 0 := rfl
    have hholds := hstands.holds
    rw [hoffset, hblank, Nat.add_zero, Nat.zero_add, htext, List.drop_left] at hholds
    exact hholds

/-- `x: a.B[-5]`. -/
def arrayField : AstStructField :=
  ⟨noOrigin, bytes ['x'], ⟨⟨[bytes ['a']], bytes ['B']⟩, true, some (-5)⟩⟩

theorem fields_read_back_array :
    ∃ fields', List.Forall₂ SameField [arrayField] fields' ∧ ∃ enough, ∀ fuel, enough ≤ fuel →
      ∃ p', (parseFields (scanner (bufferSource stdinReader fuel) fuel) fuel
          (parseStructField (scanner (bufferSource stdinReader fuel) fuel) fuel)).run
            (Parser.init [] (Buffer.init (printFields [arrayField] ++ [curlyCloseMark]))) =
              (.ok fields', p') ∧
        Holds stdinReader p'.source [curlyCloseMark] := by
  have hword : ∀ c : Char, isLetter c.toUInt8 = true → wordSymbol (bytes [c]) = .identifier →
      PrintingLemmas.IsWord (bytes [c]) :=
    fun c hletter hword => ⟨⟨_, [], rfl, hletter, fun _ h => nomatch h⟩, hword⟩
  have hfields : ∀ field ∈ [arrayField], field.Readable := by
    intro field hmem
    cases List.mem_singleton.mp hmem
    refine ⟨hword 'x' (by decide) (by decide), ?_, hword 'B' (by decide) (by decide),
      fun _ => ⟨-5, rfl, by decide, by decide⟩⟩
    intro word hword'
    cases List.mem_singleton.mp hword'
    exact hword 'a' (by decide) (by decide)
  exact fields_read_back stdinReader (Parser.init [] (Buffer.init _)) [arrayField] [] hfields
    (holds_init (stdinReader_delivers _)) rfl

end Ian.Happy
