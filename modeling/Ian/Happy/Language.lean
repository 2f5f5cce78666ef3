import Ian.Lib.Viable
import Ian.Happy.Fragments

/-!
# Documents as words of symbols

The grammar as a language over symbols, `documentWords`. The rules of the grammar
read every word of it (`document_covers`), and lexemes with a space after each
are read back as they are (`spells_all`), so the lexemes that can be completed to
a word are the start of a document the parser accepts (`viable_of_word`).
-/

namespace Ian.Happy

open Ian.Lib Rule

/-! ## The language of documents -/

/-- The symbols documents are made of. -/
def Terminal (s : Symbol) : Prop :=
  s ∈ [Symbol.identifier, .string, .integer] ∨ (symbolLength s).isSome

instance (s : Symbol) : Decidable (Terminal s) := inferInstanceAs (Decidable (_ ∨ _))

abbrev SymbolWords := Words Symbol Terminal

/-- The word of one symbol. -/
def sym (s : Symbol) (h : Terminal s := by decide) : SymbolWords := .one s h

def dottedWords : SymbolWords := .seq [sym .namespaceSep, sym .identifier]

def qualWords : SymbolWords := .seq [sym .identifier, .star dottedWords]

def arrayWords : SymbolWords := .seq [sym .bracketOpen, sym .integer, sym .bracketClose]

def typeWords : SymbolWords := .seq [qualWords, .option arrayWords]

def includeWords : SymbolWords := .seq [sym .includeKw, sym .string]

def structFieldWords : SymbolWords := .seq [sym .identifier, sym .colon, typeWords]

def structWords : SymbolWords :=
  .seq [sym .structKw, sym .identifier, sym .curlyOpen, .star structFieldWords, sym .curlyClose]

def mappingFieldWords : SymbolWords := .seq [sym .identifier, sym .colon, sym .string]

def mappingWords : SymbolWords :=
  .seq [sym .mappingKw, sym .identifier, sym .colon, qualWords, sym .curlyOpen,
    .star mappingFieldWords, sym .curlyClose]

def encodingNameWords : SymbolWords := .option (.seq [sym .colon, sym .identifier])

def encodingFieldWords : SymbolWords := .seq [sym .identifier, encodingNameWords]

/-- The words of the rule `enode`. -/
inductive NodeWord : List Symbol → Prop
  | field {w : List Symbol} : w ∈ encodingFieldWords.language → NodeWord w
  | deltaField {w : List Symbol} : w ∈ encodingFieldWords.language → NodeWord (.deltaKw :: w)
  | deltaBlock {ws : List (List Symbol)} : (∀ w ∈ ws, NodeWord w) →
      NodeWord (.deltaKw :: .curlyOpen :: (ws.flatten ++ [.curlyClose]))

def nodeWords : SymbolWords where
  language := {w | NodeWord w}
  inhabited := encodingFieldWords.inhabited.imp fun _ => .field
  within := by
    intro w hw
    induction hw with
    | field hw => exact encodingFieldWords.within _ hw
    | deltaField hw =>
      exact List.forall_mem_cons.mpr ⟨by decide, encodingFieldWords.within _ hw⟩
    | deltaBlock _ ih =>
      intro s hs
      simp only [List.mem_cons, List.mem_append, List.mem_flatten, List.not_mem_nil,
        or_false] at hs
      rcases hs with rfl | rfl | ⟨w, hw, hs⟩ | rfl
      · decide
      · decide
      · exact ih w hw s hs
      · decide

/-- What comes after the keyword of a `DELTA` block. -/
def deltaTailWords : SymbolWords :=
  .either encodingFieldWords (.seq [sym .curlyOpen, .star nodeWords, sym .curlyClose])

def encodingWords : SymbolWords :=
  .seq [sym .encodingKw, sym .identifier, encodingNameWords, sym .curlyOpen, .star nodeWords,
    sym .curlyClose]

def declWords : SymbolWords := .either structWords (.either mappingWords encodingWords)

def namespaceWords : SymbolWords := .option (.seq [sym .namespaceKw, qualWords])

def documentWords : SymbolWords := .seq [.star includeWords, namespaceWords, .star declWords]

/-! ## The grammar reads the language -/

/-- The lexemes that are tokens of some document. -/
def Spellable : Lexeme → Prop
  | .identifier name => PrintingLemmas.IsWord name
  | .string _ => True
  | .integer value => InInt64 value
  | .fixed symbol => (symbolLength symbol).isSome
  | .eof | .number | .error | .openString => False

/-- The rule reads every word of `L`. -/
abbrev RuleReads {α : Type} (L : SymbolWords) (g : Rule Token α) : Prop :=
  Covers (fun tok => Spellable tok.lexeme) (fun tok => tok.lexeme.symbol) L g

namespace LanguageLemmas

open PrintingLemmas ScanningLemmas DecidingLemmas FragmentLemmas

variable {α β : Type} {L : SymbolWords} {Ls : List SymbolWords} {lx : Lexeme}

theorem terminal_covers {take : Lexeme → Option α} {symbol : Symbol} (h : Terminal symbol)
    (htake : ∀ lx, Spellable lx → lx.symbol = symbol → ∃ a, take lx = some a) :
    RuleReads (sym symbol h) (terminal take) := by
  rintro _ rfl toks rest hgood hw
  obtain ⟨tok, rfl, hsymbol⟩ := List.map_eq_singleton_iff.mp hw
  obtain ⟨a, ha⟩ := htake tok.lexeme (hgood tok List.mem_cons_self) hsymbol
  exact ⟨a, tok, rfl, ha⟩

theorem fixed_covers (symbol : Symbol) (h : (symbolLength symbol).isSome) :
    RuleReads (sym symbol (Or.inr h)) (fixedRule symbol) := by
  refine terminal_covers _ fun lx hlx hsymbol => ?_
  cases lx with
  | fixed s => exact ⟨(), if_pos (congrArg Lexeme.fixed hsymbol)⟩
  | identifier name | string value | integer value | eof | number | error | openString =>
    cases hsymbol
    cases h

theorem identifier_covers : RuleReads (sym .identifier) identifierRule := by
  refine terminal_covers _ fun lx hlx hsymbol => ?_
  cases lx with
  | identifier name => exact ⟨name, rfl⟩
  | fixed s =>
    cases hsymbol
    cases hlx
  | string value | integer value | eof | number | error | openString => cases hsymbol

theorem string_covers : RuleReads (sym .string) stringRule := by
  refine terminal_covers _ fun lx hlx hsymbol => ?_
  cases lx with
  | string value => exact ⟨value, rfl⟩
  | fixed s =>
    cases hsymbol
    cases hlx
  | openString => cases hlx
  | identifier name | integer value | eof | number | error => cases hsymbol

theorem integer_covers : RuleReads (sym .integer) integerRule := by
  refine terminal_covers _ fun lx hlx hsymbol => ?_
  cases lx with
  | integer value => exact ⟨value, rfl⟩
  | fixed s =>
    cases hsymbol
    cases hlx
  | identifier name | string value | eof | number | error | openString => cases hsymbol

theorem delta_words : (Words.seq [sym .deltaKw, deltaTailWords]).language ≤ nodeWords.language := by
  intro w hw
  obtain ⟨_, rfl, v, hv, rfl⟩ := Language.mem_mul.mp hw
  rcases (Words.seq_single _).le hv with hfield | hblock
  · exact .deltaField hfield
  · obtain ⟨_, rfl, _, hrest, rfl⟩ := Language.mem_mul.mp hblock
    obtain ⟨_, hnodes, _, hclose, rfl⟩ := Language.mem_mul.mp hrest
    obtain ⟨ws, rfl, hws⟩ := Language.mem_kstar.mp hnodes
    obtain rfl := (Words.seq_single _).le hclose
    exact .deltaBlock hws

/-- A rule that notes where it starts. -/
theorem start_covers {f : DocumentPosition → Rule Token α} (h : ∀ origin, RuleReads L (f origin)) :
    RuleReads L (startRule >>= f) :=
  Covers.skip (fun toks => ⟨startOf toks, rfl, rfl⟩) h

theorem qual_covers : RuleReads qualWords qualRule :=
  identifier_covers.bind fun _ => Covers.bind
    (Covers.many ((fixed_covers _ rfl).bind fun _ => identifier_covers.last)) fun _ => Covers.pure _

theorem array_covers : RuleReads arrayWords arrayRule :=
  (fixed_covers _ rfl).bind fun _ => integer_covers.bind fun _ =>
    (fixed_covers _ rfl).bind fun _ => Covers.pure _

theorem type_covers : RuleReads typeWords typeRule := by
  refine qual_covers.bind fun identifier => Covers.last (Covers.either ?_ (Covers.pure _))
  exact Covers.mono (array_covers.bind fun _ => Covers.pure _) (Words.seq_single arrayWords).ge

theorem include_covers : RuleReads includeWords includeRule :=
  start_covers fun _ => (fixed_covers _ rfl).bind fun _ => string_covers.bind fun _ => Covers.pure _

theorem structField_covers : RuleReads structFieldWords structFieldRule :=
  start_covers fun _ => identifier_covers.bind fun _ => (fixed_covers _ rfl).bind fun _ =>
    type_covers.bind fun _ => Covers.pure _

theorem struct_covers : RuleReads structWords structRule :=
  start_covers fun _ => (fixed_covers _ rfl).bind fun _ => identifier_covers.bind fun _ =>
    (fixed_covers _ rfl).bind fun _ => structField_covers.many.bind fun _ =>
      (fixed_covers _ rfl).bind fun _ => Covers.pure _

theorem mappingField_covers : RuleReads mappingFieldWords mappingFieldRule :=
  start_covers fun _ => identifier_covers.bind fun _ => (fixed_covers _ rfl).bind fun _ =>
    string_covers.bind fun _ => Covers.pure _

theorem mapping_covers : RuleReads mappingWords mappingRule :=
  start_covers fun _ => (fixed_covers _ rfl).bind fun _ => identifier_covers.bind fun _ =>
    (fixed_covers _ rfl).bind fun _ => qual_covers.bind fun _ => (fixed_covers _ rfl).bind fun _ =>
      mappingField_covers.many.bind fun _ => (fixed_covers _ rfl).bind fun _ => Covers.pure _

theorem encodingName_covers : RuleReads encodingNameWords encodingNameRule :=
  Covers.option ((fixed_covers _ rfl).bind fun _ => identifier_covers.last) _

theorem encodingField_covers : RuleReads encodingFieldWords encodingFieldRule :=
  start_covers fun _ => identifier_covers.bind fun _ => encodingName_covers.bind fun _ =>
    Covers.pure _

/-- The words of the one recursive rule are read by induction on the word. -/
theorem node_covers : RuleReads nodeWords EncodingNode := by
  intro w hw
  induction hw with
  | field hw =>
    intro toks rest hgood heq
    obtain ⟨node, hnode⟩ := encodingField_covers _ hw toks rest hgood heq
    exact ⟨node, .field hnode⟩
  | deltaField hw =>
    intro toks rest hgood heq
    have hdelta := (fixed_covers .deltaKw rfl _ rfl).bind fun _ => encodingField_covers _ hw
    obtain ⟨_, ⟨⟩, mid, hdelta, hnode⟩ := hdelta toks rest hgood heq
    exact ⟨_, .deltaField hdelta hnode⟩
  | @deltaBlock ws _ ih =>
    intro toks rest hgood heq
    have hclose := fixed_covers .curlyClose rfl _ rfl
    have hnodes := (ReadsWord.many ih).bind fun _ => hclose
    have hopen := (fixed_covers .curlyOpen rfl _ rfl).bind fun _ => hnodes
    have hdelta := (fixed_covers .deltaKw rfl _ rfl).bind fun _ => hopen
    obtain ⟨_, ⟨⟩, mid, hdelta, ⟨⟩, inner, hopen, nodes, last, hnodes, hclose⟩ :=
      hdelta toks rest hgood heq
    exact ⟨_, .deltaBlock hdelta hopen hnodes hclose⟩

theorem encoding_covers : RuleReads encodingWords encodingRule :=
  start_covers fun _ => (fixed_covers _ rfl).bind fun _ => identifier_covers.bind fun _ =>
    encodingName_covers.bind fun _ => (fixed_covers _ rfl).bind fun _ =>
      node_covers.many.bind fun _ => (fixed_covers _ rfl).bind fun _ => Covers.pure _

theorem decl_covers : RuleReads declWords declRule :=
  (struct_covers.map _).either ((mapping_covers.map _).either (encoding_covers.map _))

theorem namespace_covers : RuleReads namespaceWords namespaceRule :=
  Covers.option ((fixed_covers _ rfl).bind fun _ => qual_covers.last) _

/-- Tokens that spell a word and the end of the document derive a tree. -/
theorem document_covers (toks : List Token) (last : Token)
    (hgood : ∀ tok ∈ toks, Spellable tok.lexeme)
    (hword : toks.map (fun tok => tok.lexeme.symbol) ∈ documentWords.language)
    (hlast : last.lexeme = .eof) (filename : List UInt8) :
    ∃ t, Derives filename (toks ++ [last]) t := by
  have hparts := include_covers.many.bind fun includes => namespace_covers.bind fun space =>
    decl_covers.many.bind fun decls => Covers.pure (includes, space, decls)
  obtain ⟨_, includes, mid, hincludes, space, mid', hspace, decls, _, hdecls, _, rfl⟩ :=
    hparts _ hword toks [last] hgood rfl
  have hend : (headLexeme [last]).symbol = .eof := congrArg Lexeme.symbol hlast
  exact ⟨_, _, includes, mid, hincludes, space, mid', hspace, decls, _, hdecls, (), _,
    ⟨hend, rfl⟩, rfl, rfl⟩

end LanguageLemmas

/-! ## Spelling -/

/-- The text of a keyword or a sign. -/
def symbolText : Symbol → List UInt8
  | .namespaceKw => namespaceKeyword
  | .includeKw => includeKeyword
  | .structKw => structKeyword
  | .mappingKw => mappingKeyword
  | .encodingKw => encodingKeyword
  | .deltaKw => deltaKeyword
  | .colon => [colonMark]
  | .namespaceSep => [namespaceSepMark]
  | .curlyOpen => [curlyOpenMark]
  | .curlyClose => [curlyCloseMark]
  | .bracketOpen => [bracketOpenMark]
  | .bracketClose => [bracketCloseMark]
  | .identifier | .string | .integer | .number | .eof | .error | .invalid => []

/-- A text of the lexeme. -/
def Lexeme.spell : Lexeme → List UInt8
  | .identifier name => name
  | .string value => singleQuote :: (FragmentLemmas.escape singleQuote value ++ [singleQuote])
  | .integer value => printInteger value
  | .fixed symbol => symbolText symbol
  | .eof | .number | .error | .openString => []

/-- The lexemes with a space after each. -/
def spellAll (lexemes : List Lexeme) : List UInt8 :=
  lexemes.flatMap fun lx => lx.spell ++ [spaceByte]

/-- A lexeme of the symbol. -/
def standIn : Symbol → Lexeme
  | .identifier => .identifier (bytes ['x'])
  | .string => .string []
  | .integer => .integer 0
  | symbol => .fixed symbol

/-- The lexemes are the start of the token sequence of a document that is
accepted. -/
def Viable (lexemes : List Lexeme) : Prop :=
  ∃ (ρ : Type) (rd : StreamReader ρ) (r : ρ) (s filename : List UInt8) (t : AstRoot),
    Delivers rd r s ∧ Settles (parse rd r filename) (.ok t) ∧
      lexemes <+: (tokens filename s).map Token.lexeme

namespace LanguageLemmas

open PrintingLemmas FragmentLemmas CorrectnessLemmas ScanningLemmas

variable {lx : Lexeme}

/-- A keyword or a sign and a space after it. -/
theorem spells_symbol {symbol : Symbol} (h : (symbolLength symbol).isSome) (rest : List UInt8) :
    Spells (symbolText symbol ++ spaceByte :: rest) [.fixed symbol] rest := by
  have hsign : ∀ {c : UInt8} {symbol : Symbol}, isBlank c = false →
      (∀ cs, lexeme (c :: cs) = (.fixed symbol, 1)) →
      Spells (c :: spaceByte :: rest) [.fixed symbol] rest :=
    fun hblank hlexeme => (spells_sign hblank hlexeme _).blank (Or.inl rfl)
  have hword : ∀ {c : UInt8} {cs : List UInt8} {symbol : Symbol}, isLetter c = true →
      cs.all isWordByte = true → wordLexeme (c :: cs) = .fixed symbol →
      Spells (c :: cs ++ spaceByte :: rest) [.fixed symbol] rest :=
    fun hc hcs hsymbol => spells_keyword ⟨_, _, rfl, hc, List.all_eq_true.mp hcs⟩ hsymbol rest
  cases symbol with
  | namespaceKw | includeKw | structKw | mappingKw | encodingKw | deltaKw => exact hword rfl rfl rfl
  | colon | namespaceSep | curlyOpen | curlyClose | bracketOpen | bracketClose =>
    exact hsign rfl fun _ => rfl
  | identifier | string | integer | number | eof | error | invalid => cases h

theorem spells_quoted (value : AstString) (rest : List UInt8) :
    Spells (singleQuote :: (escape singleQuote value ++ singleQuote :: rest)) [.string value]
      rest := by
  have hlexeme := lexeme_quote (escape singleQuote value ++ singleQuote :: rest)
  rw [every_string_denoted value (Or.inl rfl)] at hlexeme
  have hspells := spells_token (by decide) hlexeme
  rw [← List.drop_drop, List.drop_left] at hspells
  exact hspells

/-- The text of a lexeme and a space after it. -/
theorem spells_lexeme (h : Spellable lx) (rest : List UInt8) :
    Spells (lx.spell ++ spaceByte :: rest) [lx] rest := by
  cases lx with
  | identifier name => exact (spells_identifier h _ rfl).blank (Or.inl rfl)
  | string value =>
    have htext : (Lexeme.string value).spell ++ spaceByte :: rest =
        singleQuote :: (escape singleQuote value ++ singleQuote :: spaceByte :: rest) := by
      simp [Lexeme.spell]
    rw [htext]
    exact (spells_quoted value _).blank (Or.inl rfl)
  | integer value =>
    exact (spells_integer h rfl (by rw [List.head?_cons]; decide)).blank (Or.inl rfl)
  | fixed symbol => exact spells_symbol h rest
  | eof | number | error | openString => cases h

/-- Lexemes with a space after each are read as they are. -/
theorem spells_all {lexemes : List Lexeme} (h : ∀ lx ∈ lexemes, Spellable lx) (rest : List UInt8) :
    Spells (spellAll lexemes ++ rest) lexemes rest := by
  induction lexemes with
  | nil => exact Spells.refl rest
  | cons lx lexemes ih =>
    obtain ⟨hlx, hlexemes⟩ := List.forall_mem_cons.mp h
    have htext : spellAll (lx :: lexemes) ++ rest =
        lx.spell ++ spaceByte :: (spellAll lexemes ++ rest) := by
      simp [spellAll]
    rw [htext]
    exact (spells_lexeme hlx _).trans (ih hlexemes)

theorem standIn_spellable {symbol : Symbol} (h : Terminal symbol) :
    Spellable (standIn symbol) ∧ (standIn symbol).symbol = symbol := by
  cases symbol with
  | identifier => exact ⟨⟨⟨_, _, rfl, rfl, fun _ h => nomatch h⟩, rfl⟩, rfl⟩
  | string => exact ⟨trivial, rfl⟩
  | integer => exact ⟨by constructor <;> decide, rfl⟩
  | number | eof | error | invalid => exact absurd h (by decide)
  | namespaceKw | includeKw | structKw | mappingKw | encodingKw | deltaKw | colon | namespaceSep
    | curlyOpen | curlyClose | bracketOpen | bracketClose => exact ⟨rfl, rfl⟩

/-- Lexemes that can be completed to a word are the start of a document: the
rest of the word is spelled by stand-ins. -/
theorem viable_of_word {lexemes : List Lexeme} {more : List Symbol}
    (hgood : ∀ lx ∈ lexemes, Spellable lx)
    (hword : lexemes.map Lexeme.symbol ++ more ∈ documentWords.language) : Viable lexemes := by
  have hmore : ∀ symbol ∈ more, Spellable (standIn symbol) ∧ (standIn symbol).symbol = symbol :=
    fun symbol h => standIn_spellable
      (documentWords.within _ hword symbol (List.mem_append_right _ h))
  have hall : ∀ lx ∈ lexemes ++ more.map standIn, Spellable lx := by
    intro lx hlx
    rcases List.mem_append.mp hlx with hlx | hlx
    · exact hgood lx hlx
    · obtain ⟨symbol, hsymbol, rfl⟩ := List.mem_map.mp hlx
      exact (hmore symbol hsymbol).1
  have hsymbols : (lexemes ++ more.map standIn).map Lexeme.symbol =
      lexemes.map Lexeme.symbol ++ more := by
    rw [List.map_append, List.map_map]
    have hsame : more.map (Lexeme.symbol ∘ standIn) = more.map id :=
      List.map_congr_left fun symbol h => (hmore symbol h).2
    rw [hsame, List.map_id]
  obtain ⟨toks, stop, hlex, htoks⟩ := (spells_all hall []).reads ⟨[], 1, 0⟩
  rw [List.append_nil] at hlex
  obtain ⟨t, ht⟩ := document_covers toks ⟨.eof, stop, stop⟩
    (fun tok htok => hall _ (htoks ▸ List.mem_map_of_mem htok))
    (by rw [← hsymbols, ← htoks, List.map_map] at hword; exact hword) rfl []
  refine ⟨List UInt8, stdinReader, _, spellAll (lexemes ++ more.map standIn), [], t,
    stdinReader_delivers _, (settles_iff_derives (stdinReader_delivers _) [] t).mpr ?_, ?_⟩
  · rw [tokens, hlex]
    exact ht
  · rw [tokens, hlex, List.map_append, htoks, List.append_assoc]
    exact List.prefix_append _ _

theorem wrapInt64_inInt64 (n : Int) : InInt64 (wrapInt64 n) := by
  have hlow := Int.le_bmod (x := n) (m := 2 ^ 64) (by decide)
  have hhigh := Int.bmod_lt (x := n) (m := 2 ^ 64) (by decide)
  exact ⟨hlow, hhigh⟩

/-- A lexeme that takes bytes is a token of some document. -/
theorem lexeme_spellable {text : List UInt8} (h : (lexeme text).2 ≠ 0) :
    Spellable (lexeme text).1 := by
  have hname : ∀ name, (lexeme text).1 = .identifier name → IsWord name :=
    fun _ => lexeme_isWord text
  have hscan := lexeme_scanned text
  generalize (lexeme text).1 = lx, (lexeme text).2 = n at hscan h hname
  cases hscan with
  | integer => exact wrapInt64_inInt64 _
  | sign _ _ hsign => exact Option.isSome_of_eq_some (signSymbol_length hsign)
  | string => exact trivial
  | @word c cs =>
    unfold wordLexeme at hname ⊢
    split
    · next hword => exact hname _ (if_pos hword)
    · next hword => exact Option.isSome_of_eq_some ((wordSymbol_length _).resolve_left hword)
  | stop | number | openString | error => exact absurd rfl h

end LanguageLemmas

end Ian.Happy
