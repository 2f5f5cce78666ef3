import Ian.Happy.Printing

/-!
# Reading a printed document back

The parser accepts what the printer writes, and returns the same tree up to
origins, exactly if the document has nothing but includes and a namespace, and
no string in it has a single quote or a backslash (`prints_back_iff`).
-/

namespace Ian.Happy

open Ian.Lib Run Rule

namespace PrintingLemmas

open LexingLemmas ScanningLemmas DecidingLemmas CorrectnessLemmas

/-! ## Reading the tokens back -/

variable {filename : List UInt8} {toks more left : List Token} {t t' root : AstRoot}

def asStruct : Decl → Option AstStruct
  | .struct node => some node
  | _ => none

def asMapping : Decl → Option AstMapping
  | .mapping node => some node
  | _ => none

def asEncoding : Decl → Option AstEncoding
  | .encoding node => some node
  | _ => none

/-- The declarations, kind by kind. -/
theorem foldl_declare (root : AstRoot) (decls : List Decl) :
    decls.foldl AstRoot.declare root =
      { root with
        structDecls := root.structDecls ++ decls.filterMap asStruct
        mapDecls := root.mapDecls ++ decls.filterMap asMapping
        encoDecls := root.encoDecls ++ decls.filterMap asEncoding } := by
  induction decls generalizing root with
  | nil => simp
  | cons decl decls ih =>
    rw [List.foldl_cons, ih]
    cases decl <;> simp [AstRoot.declare, List.filterMap_cons, asStruct, asMapping, asEncoding]

/-- What can come after the includes of a document. -/
theorem document_next {space : AstQualifiedIdentifier} {decls : List Decl} {mid last : List Token}
    {u : Unit} (hspace : namespaceRule toks space mid) (hdecls : Many declRule mid decls last)
    (hend : endRule last u left) : nextSymbol toks ≠ .includeKw :=
  namespace_next hspace (decls_follow hdecls (Or.inl hend.1)).2

theorem takeFixed_of_eq {symbol : Symbol} {lx : Lexeme} (h : lx = .fixed symbol) :
    lx.takeFixed symbol = some () := by
  rw [h]
  exact if_pos rfl

theorem next_of_lexeme {tok : Token} {lx : Lexeme} (h : tok.lexeme = lx) (more : List Token) :
    nextSymbol (tok :: more) = lx.symbol := congrArg Lexeme.symbol h

/-- A document that starts with `INCLUDE` is an include and a document. -/
theorem document_first (h : nextSymbol toks = .includeKw) (ht : documentRule filename toks t left) :
    ∃ inc mid t', includeRule toks inc mid ∧ documentRule filename mid t' left ∧
      t = { t' with includes := inc :: t'.includes } := by
  obtain ⟨incs, mid, hincs, space, mid', hspace, decls, last, hdecls, u, _, hend, rfl, rfl⟩ := ht
  cases hincs with
  | nil => exact absurd h (document_next hspace hdecls hend)
  | cons hinc hincs =>
    refine ⟨_, _, _, hinc,
      ⟨_, _, hincs, space, mid', hspace, decls, last, hdecls, u, _, hend, rfl, rfl⟩, ?_⟩
    rw [foldl_declare, foldl_declare]

theorem document_include {tok tok' : Token} {path : AstString} (h : tok.lexeme = .fixed .includeKw)
    (h' : tok'.lexeme = .string path) :
    documentRule filename (tok :: tok' :: more) t left ↔
      ∃ t', documentRule filename more t' left ∧
        t = { t' with includes := ⟨tok.start, path⟩ :: t'.includes } := by
  constructor
  · intro ht
    obtain ⟨inc, mid, t', hinc, ht', rfl⟩ := document_first (next_of_lexeme h _) ht
    obtain ⟨_, _, ⟨rfl, rfl⟩, _, _, ⟨_, heq, _⟩, path', _, ⟨_, heq', htake⟩, rfl, rfl⟩ := hinc
    cases heq
    cases heq'
    rw [h'] at htake
    cases htake
    exact ⟨t', ht', rfl⟩
  · rintro ⟨t', ⟨incs, mid, hincs, space, mid', hspace, decls, last, hdecls, u, _, hend, rfl, rfl⟩,
      rfl⟩
    have hinc : includeRule (tok :: tok' :: more) ⟨tok.start, path⟩ more :=
      ⟨_, _, ⟨rfl, rfl⟩, (), _, ⟨_, rfl, takeFixed_of_eq h⟩, path, _,
        ⟨_, rfl, by rw [h']; rfl⟩, rfl, rfl⟩
    refine ⟨_, mid, .cons hinc hincs, space, mid', hspace, decls, last, hdecls, u, _, hend, ?_, rfl⟩
    rw [foldl_declare, foldl_declare]

/-- The tokens of includes come first in a document, and are its first
includes. -/
theorem document_includes {incs : List AstInclude}
    (h : toks.map Token.lexeme = incs.flatMap includeLexemes) :
    ∃ incs' : List AstInclude,
      incs'.map AstInclude.eraseOrigin = incs.map AstInclude.eraseOrigin ∧
      ∀ filename more t left, documentRule filename (toks ++ more) t left ↔
        ∃ t', documentRule filename more t' left ∧
          t = { t' with includes := incs' ++ t'.includes } := by
  induction incs generalizing toks with
  | nil =>
    cases List.map_eq_nil_iff.mp h
    refine ⟨[], rfl, fun filename more t left => ?_⟩
    constructor
    · exact fun ht => ⟨t, ht, rfl⟩
    · rintro ⟨t', ht', rfl⟩
      exact ht'
  | cons inc incs ih =>
    obtain ⟨tok, toks, rfl, htok, h⟩ := List.map_eq_cons_iff.mp h
    obtain ⟨tok', toks, rfl, htok', h⟩ := List.map_eq_cons_iff.mp h
    obtain ⟨incs', hincs', hiff⟩ := ih h
    refine ⟨⟨tok.start, inc.path⟩ :: incs', ?_, fun filename more t left => ?_⟩
    · rw [List.map_cons, List.map_cons, hincs']
      rfl
    · rw [List.cons_append, List.cons_append, document_include htok htok']
      constructor
      · rintro ⟨t', ht', rfl⟩
        obtain ⟨t'', ht'', rfl⟩ := (hiff _ _ _ _).mp ht'
        exact ⟨t'', ht'', rfl⟩
      · rintro ⟨t', ht', rfl⟩
        exact ⟨_, (hiff _ _ _ _).mpr ⟨t', ht', rfl⟩, rfl⟩

/-- The tokens of a qualified identifier are read as its words. -/
theorem qual_words {space : List AstIdentifier} {name : AstIdentifier}
    (h : toks.map Token.lexeme = qualLexemes ⟨space, name⟩) (more : List Token) :
    ∃ first rest mid, first :: rest = space ++ [name] ∧ identifierRule (toks ++ more) first mid ∧
      Many dottedRule mid rest more := by
  induction space generalizing toks with
  | nil =>
    obtain ⟨tok, toks, rfl, htok, h⟩ := List.map_eq_cons_iff.mp h
    cases List.map_eq_nil_iff.mp h
    exact ⟨name, [], more, rfl, ⟨tok, rfl, by rw [htok]; rfl⟩, .nil more⟩
  | cons word space ih =>
    obtain ⟨tok, toks, rfl, htok, h⟩ := List.map_eq_cons_iff.mp h
    obtain ⟨tok', toks, rfl, htok', h⟩ := List.map_eq_cons_iff.mp h
    obtain ⟨first, rest, mid, hwords, hfirst, hrest⟩ := ih h
    refine ⟨word, first :: rest, tok' :: (toks ++ more), ?_, ⟨tok, rfl, by rw [htok]; rfl⟩, ?_⟩
    · rw [hwords]
      rfl
    · exact .cons ⟨(), _, ⟨tok', rfl, takeFixed_of_eq htok'⟩, hfirst⟩ hrest

theorem qual_read {id : AstQualifiedIdentifier} (h : toks.map Token.lexeme = qualLexemes id)
    (more : List Token) : qualRule (toks ++ more) id more := by
  obtain ⟨first, rest, mid, hwords, hfirst, hrest⟩ := qual_words h more
  refine ⟨first, mid, hfirst, rest, more, hrest, ?_, rfl⟩
  unfold qualified
  simp [hwords]

/-! ### What the printer writes for a structure -/

/-- No document goes on with a word or a dot after its includes and its
namespace. -/
theorem decls_stuck {decls : List Decl} {last : List Token} {u : Unit}
    (h : nextSymbol toks = .identifier ∨ nextSymbol toks = .namespaceSep ∨
      nextSymbol toks = .namespaceKw)
    (hdecls : Many declRule toks decls last) : ¬endRule last u left := by
  intro hend
  have hnext := decls_next hdecls (Or.inl hend.1)
  rcases h with h | h | h <;> simp [h] at hnext

theorem not_document_word {tok : Token} {name : AstIdentifier}
    (h : tok.lexeme = .identifier name) : ¬documentRule filename (tok :: more) t left := by
  have hnext : nextSymbol (tok :: more) = .identifier := next_of_lexeme h more
  rintro ⟨incs, mid, hincs, space, mid', hspace, decls, last, hdecls, u, _, hend, _⟩
  cases hincs with
  | cons hinc _ => cases hnext.symm.trans (include_next hinc)
  | nil =>
    rcases hspace with ⟨_, _, hkw, _⟩ | ⟨_, rfl⟩
    · cases hnext.symm.trans (fixed_next hkw)
    · exact decls_stuck (Or.inl hnext) hdecls hend

/-- Wherever the reading of a qualified identifier stops before a word, a word
or a dot comes next. -/
theorem qual_stuck {space : List AstIdentifier} {name : AstIdentifier}
    (h : toks.map Token.lexeme = qualLexemes ⟨space, name⟩) (hmore : nextSymbol more = .identifier)
    {first : AstIdentifier} {words : List AstIdentifier} {mid : List Token}
    (hfirst : identifierRule (toks ++ more) first mid) (hwords : Many dottedRule mid words left) :
    nextSymbol left = .identifier ∨ nextSymbol left = .namespaceSep := by
  induction space generalizing toks first words mid with
  | nil =>
    obtain ⟨tok, toks, rfl, _, h⟩ := List.map_eq_cons_iff.mp h
    cases List.map_eq_nil_iff.mp h
    obtain ⟨_, heq, _⟩ := hfirst
    cases heq
    cases hwords with
    | nil => exact Or.inl hmore
    | cons hdot _ => cases hmore.symm.trans (dotted_next hdot)
  | cons word space ih =>
    obtain ⟨tok, toks, rfl, _, h⟩ := List.map_eq_cons_iff.mp h
    obtain ⟨tok', toks, rfl, htok', h⟩ := List.map_eq_cons_iff.mp h
    obtain ⟨_, heq, _⟩ := hfirst
    cases heq
    cases hwords with
    | nil => exact Or.inr (next_of_lexeme htok' _)
    | cons hdot hrest =>
      obtain ⟨_, _, ⟨_, heq, _⟩, hword⟩ := hdot
      cases heq
      exact ih h hword hrest

theorem not_document_namespace {tok : Token} {id : AstQualifiedIdentifier}
    (htok : tok.lexeme = .fixed .namespaceKw) (h : toks.map Token.lexeme = qualLexemes id)
    (hmore : nextSymbol more = .identifier) :
    ¬documentRule filename (tok :: (toks ++ more)) t left := by
  have hnext : nextSymbol (tok :: (toks ++ more)) = .namespaceKw := next_of_lexeme htok _
  rintro ⟨incs, mid, hincs, space, mid', hspace, decls, last, hdecls, u, _, hend, _⟩
  cases hincs with
  | cons hinc _ => cases hnext.symm.trans (include_next hinc)
  | nil =>
    rcases hspace with ⟨_, _, ⟨_, heq, _⟩, first, _, hfirst, words, _, hwords, _, rfl⟩ | ⟨_, rfl⟩
    · cases heq
      rcases qual_stuck h hmore hfirst hwords with hstuck | hstuck
      · exact decls_stuck (Or.inl hstuck) hdecls hend
      · exact decls_stuck (Or.inr (Or.inl hstuck)) hdecls hend
    · exact decls_stuck (Or.inr (Or.inr hnext)) hdecls hend

/-! ### The printed text as a document -/

/-- A namespace as the parser returns it: none, or one of words. -/
def SpaceWords (space : AstQualifiedIdentifier) : Prop :=
  space = ⟨[], []⟩ ∨ (∀ word ∈ space.space, IsWord word) ∧ IsWord space.name

theorem IsWord.ne_nil {word : AstIdentifier} (h : IsWord word) : word.isEmpty = false := by
  obtain ⟨⟨c, cs, rfl, _⟩, _⟩ := h
  rfl

theorem spells_namespace {space : AstQualifiedIdentifier}
    (hspace : ∀ word ∈ space.space, IsWord word) (hname : IsWord space.name) (rest : List UInt8) :
    Spells (space.printNamespace ++ rest) (.fixed .namespaceKw :: qualLexemes space) rest := by
  have hprint : space.printNamespace ++ rest =
      namespaceKeyword ++ spaceByte :: (space.print ++ lineFeed :: rest) := by
    unfold AstQualifiedIdentifier.printNamespace
    rw [hname.ne_nil]
    simp
  rw [hprint]
  have hqual : Spells (space.print ++ lineFeed :: rest) (qualLexemes space) (lineFeed :: rest) :=
    spells_qual hspace hname _ rfl
  exact (spells_keyword spelled_namespace (by decide) _).trans (hqual.blank (Or.inr rfl))

/-- The document after its includes, if nothing is declared in it. -/
theorem space_document {space : AstQualifiedIdentifier} (hspace : SpaceWords space)
    (filename : List UInt8) (pos : DocumentPosition) :
    ∃ left, documentRule filename (lex pos space.printNamespace)
      { origin := ⟨filename, 1, 0⟩, includes := [], space, structDecls := [], mapDecls := [],
        encoDecls := [] } left := by
  rcases hspace with rfl | ⟨hwords, hname⟩
  · exact ⟨_, [], _, .nil _, _, _, Or.inr ⟨rfl, rfl⟩, [], _, .nil _, (), _, ⟨rfl, rfl⟩, rfl, rfl⟩
  · obtain ⟨toks, stop, hlex, htoks⟩ := (spells_namespace hwords hname []).reads pos
    rw [List.append_nil] at hlex
    rw [hlex]
    obtain ⟨tok, toks, rfl, htok, htoks⟩ := List.map_eq_cons_iff.mp htoks
    have hqual := qual_read htoks (lex stop [])
    exact ⟨_, [], _, .nil _, _, _, Or.inl ⟨(), _, ⟨tok, rfl, takeFixed_of_eq htok⟩, hqual⟩, [], _,
      .nil _, (), _, ⟨rfl, rfl⟩, rfl, rfl⟩

theorem printed_derives (hspace : SpaceWords root.space)
    (hpaths : ∀ inc ∈ root.includes, plain inc.path = true) (hstructs : root.structDecls = [])
    (filename : List UInt8) :
    ∃ incs' : List AstInclude,
      incs'.map AstInclude.eraseOrigin = root.includes.map AstInclude.eraseOrigin ∧
      Derives filename (tokens filename root.print)
        { origin := ⟨filename, 1, 0⟩, includes := incs', space := root.space, structDecls := [],
          mapDecls := [], encoDecls := [] } := by
  have hprint : root.print = root.includes.flatMap (fun node => node.print ++ [lineFeed]) ++
      root.space.printNamespace := by
    unfold AstRoot.print
    rw [hstructs, List.flatMap_nil, List.append_nil]
  obtain ⟨toks, stop, hlex, htoks⟩ :=
    (spells_includes hpaths root.space.printNamespace).reads ⟨filename, 1, 0⟩
  obtain ⟨incs', hincs', hiff⟩ := document_includes htoks
  obtain ⟨left, hdocument⟩ := space_document hspace filename stop
  refine ⟨incs', hincs', left, ?_⟩
  unfold tokens
  rw [hprint, hlex]
  refine (hiff _ _ _ _).mpr ⟨_, hdocument, ?_⟩
  rw [List.append_nil]

/-- The parser does not know what the printer writes for a structure. -/
theorem not_derives_struct (hspace : SpaceWords root.space)
    (hpaths : ∀ inc ∈ root.includes, plain inc.path = true) (hstructs : root.structDecls ≠ [])
    (filename : List UInt8) (t : AstRoot) :
    ¬Derives filename (tokens filename root.print) t := by
  obtain ⟨data, structs, hdecls⟩ := List.exists_cons_of_ne_nil hstructs
  obtain ⟨text, htext⟩ : ∃ text, root.structDecls.flatMap (fun node => node.print ++ [lineFeed]) =
      dataKeyword ++ spaceByte :: text := by
    rw [hdecls, List.flatMap_cons]
    unfold AstStruct.print
    simp only [List.append_assoc]
    exact ⟨_, rfl⟩
  have hprint : root.print = root.includes.flatMap (fun node => node.print ++ [lineFeed]) ++
      (root.space.printNamespace ++ (dataKeyword ++ spaceByte :: text)) := by
    unfold AstRoot.print
    rw [htext, List.append_assoc]
  have hdata : Reads (dataKeyword ++ spaceByte :: text) [.identifier dataKeyword]
      (spaceByte :: text) := (spells_word spelled_data rfl).reads
  rintro ⟨left, hdocument⟩
  unfold tokens at hdocument
  rw [hprint] at hdocument
  obtain ⟨toks, stop, hlex, htoks⟩ := (spells_includes hpaths
    (root.space.printNamespace ++ (dataKeyword ++ spaceByte :: text))).reads ⟨filename, 1, 0⟩
  obtain ⟨_, _, hiff⟩ := document_includes htoks
  rw [hlex] at hdocument
  obtain ⟨t', hdocument, _⟩ := (hiff _ _ _ _).mp hdocument
  rcases hspace with hnone | ⟨hwords, hname⟩
  · rw [hnone] at hdocument
    obtain ⟨toks, stop', hlex, htoks⟩ := hdata stop
    obtain ⟨tok, toks, rfl, htok, htoks⟩ := List.map_eq_cons_iff.mp htoks
    have hlex' : lex stop (AstQualifiedIdentifier.printNamespace ⟨[], []⟩ ++
        (dataKeyword ++ spaceByte :: text)) = tok :: (toks ++ lex stop' (spaceByte :: text)) := hlex
    rw [hlex'] at hdocument
    exact not_document_word htok hdocument
  · obtain ⟨toks, stop', hlex, htoks⟩ := (spells_namespace hwords hname
      (dataKeyword ++ spaceByte :: text)).reads stop
    obtain ⟨tok, toks, rfl, htok, htoks⟩ := List.map_eq_cons_iff.mp htoks
    obtain ⟨toks', stop'', hlex', htoks'⟩ := hdata stop'
    obtain ⟨tok', _, rfl, htok', _⟩ := List.map_eq_cons_iff.mp htoks'
    have hmore : nextSymbol (lex stop' (dataKeyword ++ spaceByte :: text)) = .identifier := by
      rw [hlex']
      exact next_of_lexeme htok' _
    rw [hlex] at hdocument
    exact not_document_namespace htok htoks hmore hdocument

theorem takeString_eq {lx : Lexeme} {value : AstString} (h : lx.takeString = some value) :
    lx = .string value := by
  cases lx <;> cases h
  rfl

/-- The path the parser reads where the printer has written one. -/
theorem path_read {tok : Token} {cs : List UInt8} {pos : DocumentPosition} {inc : AstInclude}
    (h : includeRule (tok :: lex pos (singleQuote :: cs)) inc left) :
    ∃ n, stringRest singleQuote false cs = some (inc.path, n) := by
  obtain ⟨_, _, ⟨rfl, rfl⟩, _, _, ⟨_, heq, _⟩, path, _, ⟨tok', hlex, htake⟩, rfl, rfl⟩ := h
  cases heq
  obtain ⟨stop, rest, hhead⟩ := lex_head pos (singleQuote :: cs)
  rw [skipBlank_stop pos (by decide), List.drop_zero, hlex] at hhead
  have htok' := congrArg Token.lexeme (List.cons.inj hhead).1
  rw [takeString_eq htake, lexeme_quote] at htok'
  split at htok'
  · next value n hvalue =>
    cases htok'
    exact ⟨n, hvalue⟩
  · cases htok'

/-- A path that is read back is a plain one. -/
theorem plain_of_document {incs : List AstInclude} {rest : List UInt8} {pos : DocumentPosition}
    (h : documentRule filename
      (lex pos (incs.flatMap (fun node => node.print ++ [lineFeed]) ++ rest)) t left)
    (hsame : incs.map AstInclude.eraseOrigin <+: t.includes.map AstInclude.eraseOrigin) :
    ∀ inc ∈ incs, plain inc.path = true := by
  induction incs generalizing pos t with
  | nil => exact fun _ h => nomatch h
  | cons inc incs ih =>
    rw [List.flatMap_cons, List.append_assoc] at h
    have hplain : plain inc.path = true := by
      rw [print_include] at h
      have hkeyword : wordLexeme includeKeyword = .fixed .includeKw := by decide
      obtain ⟨toks, stop, hlex, htoks⟩ := (spells_keyword spelled_include hkeyword _).reads pos
      obtain ⟨tok, toks, rfl, htok, htoks⟩ := List.map_eq_cons_iff.mp htoks
      cases List.map_eq_nil_iff.mp htoks
      rw [hlex] at h
      obtain ⟨inc', mid, t', hinc', _, rfl⟩ := document_first (next_of_lexeme htok _) h
      obtain ⟨n, hpath⟩ := path_read hinc'
      have hinc : inc.eraseOrigin = inc'.eraseOrigin := (List.cons_prefix_cons.mp hsame).1
      have hsamePath : inc.path = inc'.path := (AstInclude.mk.inj hinc).2
      rw [← hsamePath] at hpath
      exact plain_of_stringRest hpath
    obtain ⟨toks, stop, hlex, htoks⟩ := (spells_include hplain _).reads pos
    obtain ⟨tok, toks, rfl, htok, htoks⟩ := List.map_eq_cons_iff.mp htoks
    obtain ⟨tok', toks, rfl, htok', htoks⟩ := List.map_eq_cons_iff.mp htoks
    cases List.map_eq_nil_iff.mp htoks
    rw [hlex] at h
    obtain ⟨t', ht', rfl⟩ := (document_include htok htok').mp h
    have hrest := ih ht' (List.cons_prefix_cons.mp hsame).2
    intro inc' hinc'
    rcases List.mem_cons.mp hinc' with rfl | hmem
    · exact hplain
    · exact hrest inc' hmem

/-! ## The tree of a document -/

/-- What holds of every lexeme of a text holds of all its tokens. -/
theorem lexUpTo_forall {P : Lexeme → Prop} (h : ∀ text, P (lexeme text).1) (n : Nat)
    (pos : DocumentPosition) (text : List UInt8) : ∀ tok ∈ lexUpTo n pos text, P tok.lexeme := by
  induction n generalizing pos text with
  | zero => exact fun _ h => nomatch h
  | succ n ih =>
    intro tok htok
    unfold lexUpTo at htok
    dsimp only at htok
    split at htok
    · rw [List.mem_singleton.mp htok]
      exact h _
    · rcases List.mem_cons.mp htok with rfl | hmem
      · exact h _
      · exact ih _ _ tok hmem

theorem lexeme_isWord (text : List UInt8) {name : AstIdentifier}
    (h : (lexeme text).1 = .identifier name) : IsWord name := by
  have hscan := lexeme_scanned text
  generalize (lexeme text).1 = lx, (lexeme text).2 = m at hscan h
  cases hscan with
  | @word c cs _ _ _ _ hl =>
    unfold wordLexeme at h
    split at h
    · next hword =>
      cases h
      exact ⟨⟨c, _, rfl, hl, fun b hb => List.mem_takeWhile_imp hb⟩, hword⟩
    · cases h
  | _ => cases h

/-- The identifiers among the tokens are words. -/
def Worded (toks : List Token) : Prop :=
  ∀ tok ∈ toks, ∀ name, tok.lexeme = .identifier name → IsWord name

theorem identifier_isWord {name : AstIdentifier} (hwords : Worded toks)
    (h : identifierRule toks name left) : IsWord name ∧ Worded left := by
  obtain ⟨tok, rfl, htake⟩ := h
  refine ⟨hwords tok List.mem_cons_self name ?_, fun tok' h => hwords tok' (.tail _ h)⟩
  cases hlex : tok.lexeme <;> rw [hlex] at htake <;> cases htake
  rfl

theorem dotted_isWord {words : List AstIdentifier} (hwords : Worded toks)
    (h : Many dottedRule toks words left) : ∀ word ∈ words, IsWord word := by
  induction h with
  | nil toks => exact fun _ h => nomatch h
  | cons hdot _ ih =>
    obtain ⟨_, _, ⟨tok, rfl, _⟩, hword⟩ := hdot
    obtain ⟨hfirst, hrest⟩ := identifier_isWord (fun tok' h => hwords tok' (.tail _ h)) hword
    intro word hmem
    rcases List.mem_cons.mp hmem with rfl | hmem
    · exact hfirst
    · exact ih hrest word hmem

theorem qual_isWord {id : AstQualifiedIdentifier} (hwords : Worded toks)
    (h : qualRule toks id left) : (∀ word ∈ id.space, IsWord word) ∧ IsWord id.name := by
  obtain ⟨first, mid, hfirst, more, _, hmore, rfl, rfl⟩ := h
  obtain ⟨hword, hrest⟩ := identifier_isWord hwords hfirst
  have hall : ∀ word ∈ first :: more, IsWord word := by
    intro word hmem
    rcases List.mem_cons.mp hmem with rfl | hmem
    · exact hword
    · exact dotted_isWord hrest hmore word hmem
  exact ⟨fun word hmem => hall word (List.dropLast_subset _ hmem),
    hall _ (List.getLast_mem _)⟩

theorem tokens_worded (filename s : List UInt8) : Worded (tokens filename s) :=
  fun tok htok name => lexUpTo_forall (P := fun lx => lx = .identifier name → IsWord name)
    (fun text => lexeme_isWord text) _ _ _ tok htok

/-- The namespace of a tree the grammar derives is made of words. -/
theorem derives_spaceWords {s : List UInt8}
    (h : Derives filename (tokens filename s) root) : SpaceWords root.space := by
  obtain ⟨_, incs, mid, hincs, space, _, hspace, decls, _, _, _, _, _, rfl, _⟩ := h
  rw [foldl_declare]
  have hsuffix := (Takes.many include_takes _ _ _ hincs).1
  rcases hspace with ⟨_, _, ⟨tok, rfl, _⟩, hqual⟩ | ⟨rfl, _⟩
  · refine Or.inr (qual_isWord (fun tok' h => ?_) hqual)
    exact tokens_worded filename s tok' (hsuffix.subset (.tail _ h))
  · exact Or.inl rfl

/-! ## Reading back -/

theorem derives_unique {s : List UInt8} (h : Derives filename (tokens filename s) t)
    (h' : Derives filename (tokens filename s) t') : t = t' := by
  rcases tokens_settle filename s with ⟨t'', _, _, huniq, _⟩ | ⟨_, _, _, hnone, _⟩ |
    ⟨_, hnone, _⟩
  · rw [huniq t h, huniq t' h']
  · exact absurd ⟨t, h⟩ hnone
  · exact absurd ⟨t, h⟩ hnone

/-- The printed text is read back exactly if the tree is plain. -/
theorem printed_iff_plain (hspace : SpaceWords root.space) (filename : List UInt8) :
    (∃ root', Derives filename (tokens filename root.print) root' ∧ root'.SameTree root) ↔
      root.Plain := by
  constructor
  · rintro ⟨root', hderives, hsame⟩
    obtain ⟨left, hdocument⟩ := hderives
    have hincs : root'.includes.map AstInclude.eraseOrigin =
        root.includes.map AstInclude.eraseOrigin := congrArg AstRoot.includes hsame
    have hpaths : ∀ inc ∈ root.includes, plain inc.path = true := by
      have hdocument' := hdocument
      unfold tokens AstRoot.print at hdocument'
      rw [List.append_assoc] at hdocument'
      exact plain_of_document hdocument' (hincs ▸ List.prefix_refl _)
    have hstructs : root.structDecls = [] := by
      by_contra hne
      exact not_derives_struct hspace hpaths hne filename root' ⟨left, hdocument⟩
    obtain ⟨incs', _, hderives'⟩ := printed_derives hspace hpaths hstructs filename
    cases derives_unique ⟨left, hdocument⟩ hderives'
    have hmappings : [] = root.mapDecls.map AstMapping.eraseOrigin :=
      congrArg AstRoot.mapDecls hsame
    have hencodings : [] = root.encoDecls.map AstEncoding.eraseOrigin :=
      congrArg AstRoot.encoDecls hsame
    exact ⟨hstructs, List.map_eq_nil_iff.mp hmappings.symm, List.map_eq_nil_iff.mp hencodings.symm,
      hpaths⟩
  · rintro ⟨hstructs, hmappings, hencodings, hpaths⟩
    obtain ⟨incs', hincs', hderives⟩ := printed_derives hspace hpaths hstructs filename
    refine ⟨_, hderives, ?_⟩
    unfold AstRoot.SameTree AstRoot.eraseOrigin
    rw [hincs', hstructs, hmappings, hencodings]

/-! ## The tokens of a document -/

/-- Nothing comes after the end. -/
theorem lexUpTo_eof {n : Nat} {pos : DocumentPosition} {text : List UInt8} {tok : Token}
    {rest : List Token} (h : tok :: rest <:+ lexUpTo n pos text) (heof : tok.lexeme.symbol = .eof) :
    rest = [] := by
  induction n generalizing pos text with
  | zero => cases List.suffix_nil.mp h
  | succ n ih =>
    unfold lexUpTo at h
    dsimp only at h
    split at h
    · rcases List.suffix_cons_iff.mp h with heq | hsuffix
      · exact (List.cons.inj heq).2
      · cases List.suffix_nil.mp hsuffix
    · next hlength =>
      rcases List.suffix_cons_iff.mp h with heq | hsuffix
      · rw [(List.cons.inj heq).1] at heof
        exact absurd (lexeme_eof heof).2 hlength
      · exact ih hsuffix

/-- All tokens are printable. -/
def Printable (toks : List Token) : Prop := ∀ tok ∈ toks, tok.printable = true

theorem printable_of_symbol {tok : Token}
    (h : tok.lexeme.symbol ∉ [Symbol.structKw, .mappingKw, .encodingKw, .string]) :
    tok.printable = true := by
  unfold Token.printable
  split
  · next hlex => simp [hlex, Lexeme.symbol] at h
  · next hlex => simp [hlex, Lexeme.symbol] at h
  · next hlex => simp [hlex, Lexeme.symbol] at h
  · next hlex => simp [hlex, Lexeme.symbol] at h
  · rfl

theorem printable_cons {tok : Token} (htok : tok.printable = true) (h : Printable toks) :
    Printable (tok :: toks) := by
  intro tok' hmem
  rcases List.mem_cons.mp hmem with rfl | hmem
  · exact htok
  · exact h tok' hmem

theorem fixed_printable {symbol : Symbol} {u : Unit} (h : fixedRule symbol toks u left)
    (hsymbol : symbol ∉ [Symbol.structKw, .mappingKw, .encodingKw, .string])
    (hleft : Printable left) : Printable toks := by
  have hnext := fixed_next h
  obtain ⟨tok, rfl, _⟩ := h
  have hlex : tok.lexeme.symbol = symbol := hnext
  exact printable_cons (printable_of_symbol (by rw [hlex]; exact hsymbol)) hleft

theorem identifier_printable {name : AstIdentifier} (h : identifierRule toks name left)
    (hleft : Printable left) : Printable toks := by
  have hnext := identifier_next h
  obtain ⟨tok, rfl, _⟩ := h
  have hlex : tok.lexeme.symbol = .identifier := hnext
  exact printable_cons (printable_of_symbol (by rw [hlex]; decide)) hleft

theorem dotted_printable {words : List AstIdentifier} (h : Many dottedRule toks words left)
    (hleft : Printable left) : Printable toks := by
  induction h with
  | nil => exact hleft
  | cons hdot _ ih =>
    obtain ⟨_, _, hsep, hword⟩ := hdot
    exact fixed_printable hsep (by decide) (identifier_printable hword (ih hleft))

theorem namespace_printable {space : AstQualifiedIdentifier} (h : namespaceRule toks space left)
    (hleft : Printable left) : Printable toks := by
  rcases h with ⟨_, _, hkw, _, _, hfirst, words, _, hwords, _, rfl⟩ | ⟨_, rfl⟩
  · have hqual := identifier_printable hfirst (dotted_printable hwords hleft)
    exact fixed_printable hkw (by decide) hqual
  · exact hleft

theorem includes_printable {incs : List AstInclude} (h : Many includeRule toks incs left)
    (hpaths : ∀ inc ∈ incs, plain inc.path = true) (hleft : Printable left) : Printable toks := by
  induction h with
  | nil => exact hleft
  | cons hinc _ ih =>
    have hrest := ih (fun inc hmem => hpaths inc (.tail _ hmem)) hleft
    have hpath := hpaths _ List.mem_cons_self
    obtain ⟨_, _, ⟨rfl, rfl⟩, _, _, hkw, path, _, ⟨tok, rfl, htake⟩, rfl, rfl⟩ := hinc
    refine fixed_printable hkw (by decide) (printable_cons ?_ hrest)
    unfold Token.printable
    rw [takeString_eq htake]
    exact hpath

/-- The paths of includes are strings among the tokens. -/
theorem includes_plain {incs : List AstInclude} (h : Many includeRule toks incs left)
    (hprintable : Printable toks) : ∀ inc ∈ incs, plain inc.path = true := by
  induction h with
  | nil => exact fun _ h => nomatch h
  | cons hinc _ ih =>
    obtain ⟨_, _, ⟨rfl, rfl⟩, _, _, ⟨_, rfl, _⟩, path, _, ⟨tok, rfl, htake⟩, rfl, rfl⟩ := hinc
    have hpath : plain path = true := by
      have htok := hprintable tok (.tail _ List.mem_cons_self)
      unfold Token.printable at htok
      rw [takeString_eq htake] at htok
      exact htok
    intro inc hmem
    rcases List.mem_cons.mp hmem with rfl | hmem
    · exact hpath
    · exact ih (fun tok' h => hprintable tok' (.tail _ (.tail _ h))) inc hmem

theorem not_printable_of_symbol {tok : Token}
    (h : tok.lexeme.symbol ∈ [Symbol.structKw, .mappingKw, .encodingKw]) :
    tok.printable = false := by
  unfold Token.printable
  cases hlex : tok.lexeme with
  | fixed symbol =>
    simp only [hlex, Lexeme.symbol, List.mem_cons, List.not_mem_nil, or_false] at h
    rcases h with rfl | rfl | rfl <;> rfl
  | _ => simp [hlex, Lexeme.symbol] at h

theorem not_printable_decl {decl : Decl} (h : declRule toks decl left) : ¬Printable toks := by
  have hnext : nextSymbol toks ∈ [Symbol.structKw, .mappingKw, .encodingKw] := by
    rcases decl_cases h with ⟨_, _, _, h⟩ | ⟨_, _, _, h⟩ | ⟨_, _, _, h⟩ <;> simp [h]
  intro hprintable
  cases toks with
  | nil => simp [nextSymbol, headLexeme, Lexeme.symbol] at hnext
  | cons tok toks =>
    cases (not_printable_of_symbol hnext).symm.trans (hprintable tok List.mem_cons_self)

/-- A document of printable tokens has a plain tree, and the other way round. -/
theorem plain_iff_printable {s : List UInt8} (h : Derives filename (tokens filename s) root) :
    root.Plain ↔ Printable (tokens filename s) := by
  obtain ⟨_, incs, mid, hincs, space, mid', hspace, decls, last, hdecls, _, _, hend, rfl, _⟩ := h
  have hsuffix : mid' <:+ tokens filename s :=
    (namespace_takes _ _ _ hspace).1.trans (Takes.many include_takes _ _ _ hincs).1
  rw [foldl_declare]
  constructor
  · rintro ⟨hstructs, hmappings, hencodings, hpaths⟩
    have hnone : decls = [] := by
      cases decls with
      | nil => rfl
      | cons decl decls => cases decl <;> simp [asStruct, asMapping, asEncoding] at *
    cases hnone
    cases hdecls
    refine includes_printable hincs hpaths (namespace_printable hspace ?_)
    -- Only the end of the document is left.
    cases mid' with
    | nil => exact fun _ h => nomatch h
    | cons tok toks =>
      have heof : tok.lexeme.symbol = .eof := hend.1
      cases lexUpTo_eof hsuffix heof
      exact printable_cons (printable_of_symbol (by rw [heof]; decide)) fun _ h => nomatch h
  · intro hprintable
    have hnone : decls = [] := by
      cases hdecls with
      | nil => rfl
      | cons hdecl _ =>
        exact absurd (fun tok h => hprintable tok (hsuffix.subset h)) (not_printable_decl hdecl)
    rw [hnone]
    exact ⟨rfl, rfl, rfl, includes_plain hincs hprintable⟩

end PrintingLemmas

open PrintingLemmas CorrectnessLemmas

/-- What the printer writes for a tree the parser has returned is accepted by
the parser and gives the same tree, up to origins, if and only if the document
declares nothing, that is, has no `STRUCT`, `MAPPING` or `ENCODING`, and no
string in it has a single quote or a backslash. -/
theorem prints_back_iff {ρ ρ' : Type} (rd : StreamReader ρ) (rd' : StreamReader ρ') (r : ρ)
    (r' : ρ') (s filename filename' : List UInt8) (root : AstRoot) (h : Delivers rd r s)
    (hroot : Settles (parse rd r filename) (.ok root)) (h' : Delivers rd' r' root.print) :
    (∃ root', Settles (parse rd' r' filename') (.ok root') ∧ root'.SameTree root) ↔
      ∀ tok ∈ tokens filename s, tok.printable = true := by
  have hderives := (settles_iff_derives h filename root).mp hroot
  simp only [settles_iff_derives h' filename']
  exact (printed_iff_plain (derives_spaceWords hderives) filename').trans
    (plain_iff_printable hderives)

/-- `INCLUDE "a" NAMESPACE b`. -/
def plainExample : List UInt8 :=
  includeKeyword ++ [spaceByte, doubleQuote, Char.toUInt8 'a', doubleQuote, spaceByte] ++
    namespaceKeyword ++ [spaceByte, Char.toUInt8 'b']

def plainTree : AstRoot :=
  { origin := ⟨[], 1, 0⟩, includes := [⟨⟨[], 1, 0⟩, [Char.toUInt8 'a']⟩],
    space := ⟨[], [Char.toUInt8 'b']⟩, structDecls := [], mapDecls := [], encoDecls := [] }

theorem prints_back_iff_plain :
    ∃ root', Settles (parse stdinReader plainTree.print []) (.ok root') ∧
      root'.SameTree plainTree := by
  have htokens : tokens [] plainExample =
      [⟨.fixed .includeKw, ⟨[], 1, 0⟩, ⟨[], 1, 7⟩⟩,
        ⟨.string [Char.toUInt8 'a'], ⟨[], 1, 8⟩, ⟨[], 1, 11⟩⟩,
        ⟨.fixed .namespaceKw, ⟨[], 1, 12⟩, ⟨[], 1, 21⟩⟩,
        ⟨.identifier [Char.toUInt8 'b'], ⟨[], 1, 22⟩, ⟨[], 1, 23⟩⟩,
        ⟨.eof, ⟨[], 1, 23⟩, ⟨[], 1, 23⟩⟩] := by decide
  have hroot : Settles (parse stdinReader plainExample []) (.ok plainTree) := by
    refine (settles_iff_derives (stdinReader_delivers _) [] _).mpr ?_
    rw [htokens]
    exact ⟨_, [_], _, .cons ⟨_, _, ⟨rfl, rfl⟩, (), _, ⟨_, rfl, rfl⟩, _, _, ⟨_, rfl, rfl⟩, rfl, rfl⟩
      (.nil _), _, _, Or.inl ⟨(), _, ⟨_, rfl, rfl⟩, _, _, ⟨_, rfl, rfl⟩, [], _, .nil _, rfl, rfl⟩,
      [], _, .nil _, (), _, ⟨rfl, rfl⟩, rfl, rfl⟩
  exact (prints_back_iff stdinReader stdinReader plainExample _ plainExample [] [] plainTree
    (stdinReader_delivers _) hroot (stdinReader_delivers _)).mpr (by decide)

/-- `STRUCT A {}`. -/
def structExample : List UInt8 :=
  structKeyword ++ [spaceByte, Char.toUInt8 'A', spaceByte, curlyOpenMark, curlyCloseMark]

def structTree : AstRoot :=
  { origin := ⟨[], 1, 0⟩, includes := [], space := ⟨[], []⟩,
    structDecls := [⟨⟨[], 1, 0⟩, [Char.toUInt8 'A'], []⟩], mapDecls := [], encoDecls := [] }

/-- The parser rejects what the printer writes for a structure. -/
theorem struct_not_read_back :
    Settles (parse stdinReader structExample []) (.ok structTree) ∧
      ¬∃ root', Settles (parse stdinReader structTree.print []) (.ok root') ∧
        root'.SameTree structTree := by
  have htokens : tokens [] structExample =
      [⟨.fixed .structKw, ⟨[], 1, 0⟩, ⟨[], 1, 6⟩⟩,
        ⟨.identifier [Char.toUInt8 'A'], ⟨[], 1, 7⟩, ⟨[], 1, 8⟩⟩,
        ⟨.fixed .curlyOpen, ⟨[], 1, 9⟩, ⟨[], 1, 10⟩⟩,
        ⟨.fixed .curlyClose, ⟨[], 1, 10⟩, ⟨[], 1, 11⟩⟩,
        ⟨.eof, ⟨[], 1, 11⟩, ⟨[], 1, 11⟩⟩] := by decide
  have hstruct : structRule (tokens [] structExample) ⟨⟨[], 1, 0⟩, [Char.toUInt8 'A'], []⟩
      [⟨.eof, ⟨[], 1, 11⟩, ⟨[], 1, 11⟩⟩] := by
    rw [htokens]
    exact ⟨_, _, ⟨rfl, rfl⟩, (), _, ⟨_, rfl, rfl⟩, _, _, ⟨_, rfl, rfl⟩, (), _, ⟨_, rfl, rfl⟩, [], _,
      .nil _, (), _, ⟨_, rfl, rfl⟩, rfl, rfl⟩
  constructor
  · refine (settles_iff_derives (stdinReader_delivers _) [] _).mpr ?_
    exact ⟨_, [], _, .nil _, _, _, Or.inr ⟨rfl, rfl⟩, [.struct _], _,
      .cons (Or.inl ⟨_, _, hstruct, rfl, rfl⟩) (.nil _), (), _, ⟨rfl, rfl⟩, rfl, rfl⟩
  · rintro ⟨root', hroot', _⟩
    have hderives := (settles_iff_derives (stdinReader_delivers _) [] root').mp hroot'
    have hpaths : ∀ inc ∈ structTree.includes, plain inc.path = true := by
      intro inc hinc
      cases hinc
    exact not_derives_struct (Or.inl rfl) hpaths (List.cons_ne_nil _ _) [] root' hderives

end Ian.Happy
