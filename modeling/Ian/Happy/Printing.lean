import Ian.Happy.Correctness
import Ian.Happy.Placing

/-!
# Printing a document

`tools/happy/src/AstPrint.hpp` writes a tree as text again. It does not know
all of the language the parser reads: mappings and encodings are left out, a
structure is introduced by `DATA` where the parser asks for `STRUCT`, and the
path of an include is put between single quotes as it is. So a document is read
back exactly if it has nothing but includes and a namespace, and no path has a
single quote or a backslash in it, which is shown in `Happy/ReadBack.lean`. Here
are the printer and the token sequences of what it writes.
-/

namespace Ian.Happy

open Ian.Lib Run Rule

/-! ## `operator <<` -/

def AstQualifiedIdentifier.print (id : AstQualifiedIdentifier) : List UInt8 :=
  id.space.flatMap (fun space => space ++ [namespaceSepMark]) ++ id.name

/-- The decimal digits of an integer. -/
def printInteger (n : Int) : List UInt8 := bytes (toString n).toList

def AstType.print (type : AstType) : List UInt8 :=
  type.identifier.print ++
    if type.isArray then
      [bracketOpenMark] ++ ((type.arraySize.map printInteger).getD [] ++ [bracketCloseMark])
    else []

def AstStructField.print (field : AstStructField) : List UInt8 :=
  field.identifier ++ [colonMark, spaceByte] ++ field.type.print

/-- The word that starts a structure. -/
def dataKeyword : List UInt8 := bytes ['D', 'A', 'T', 'A']

def AstStruct.print (data : AstStruct) : List UInt8 :=
  dataKeyword ++ [spaceByte] ++ data.identifier ++ [lineFeed, curlyOpenMark, lineFeed] ++
    data.fields.flatMap (fun node => [spaceByte] ++ node.print ++ [lineFeed]) ++ [curlyCloseMark]

def AstInclude.print (inc : AstInclude) : List UInt8 :=
  includeKeyword ++ [spaceByte, singleQuote] ++ inc.path ++ [singleQuote]

/-- The namespace line, if there is a namespace. -/
def AstQualifiedIdentifier.printNamespace (space : AstQualifiedIdentifier) : List UInt8 :=
  if space.name.isEmpty then []
  else namespaceKeyword ++ [spaceByte] ++ space.print ++ [lineFeed]

def AstRoot.print (root : AstRoot) : List UInt8 :=
  root.includes.flatMap (fun node => node.print ++ [lineFeed]) ++ root.space.printNamespace ++
    root.structDecls.flatMap (fun node => node.print ++ [lineFeed])

/-! ## Trees up to origins -/

/-- The origin of a node whose origin does not matter. -/
def noOrigin : DocumentPosition := ⟨[], 0, 0⟩

def AstInclude.eraseOrigin (inc : AstInclude) : AstInclude := { inc with origin := noOrigin }

def AstStructField.eraseOrigin (field : AstStructField) : AstStructField :=
  { field with origin := noOrigin }

def AstStruct.eraseOrigin (data : AstStruct) : AstStruct :=
  { data with origin := noOrigin, fields := data.fields.map AstStructField.eraseOrigin }

def AstMappingField.eraseOrigin (field : AstMappingField) : AstMappingField :=
  { field with origin := noOrigin }

def AstMapping.eraseOrigin (map : AstMapping) : AstMapping :=
  { map with origin := noOrigin, fields := map.fields.map AstMappingField.eraseOrigin }

mutual

def AstEncodingNode.eraseOrigin : AstEncodingNode → AstEncodingNode
  | .field _ identifier encoding => .field noOrigin identifier encoding
  | .deltaBlock _ fields => .deltaBlock noOrigin (eraseOrigins fields)

def eraseOrigins : List AstEncodingNode → List AstEncodingNode
  | [] => []
  | node :: nodes => node.eraseOrigin :: eraseOrigins nodes

end

def AstEncoding.eraseOrigin (enco : AstEncoding) : AstEncoding :=
  { enco with origin := noOrigin, fields := eraseOrigins enco.fields }

def AstRoot.eraseOrigin (root : AstRoot) : AstRoot :=
  { origin := noOrigin
    includes := root.includes.map AstInclude.eraseOrigin
    space := root.space
    structDecls := root.structDecls.map AstStruct.eraseOrigin
    mapDecls := root.mapDecls.map AstMapping.eraseOrigin
    encoDecls := root.encoDecls.map AstEncoding.eraseOrigin }

/-- Two trees differ in their origins only. -/
def AstRoot.SameTree (t t' : AstRoot) : Prop := t.eraseOrigin = t'.eraseOrigin

/-! ## What is read back -/

/-- A string that can be put between single quotes as it is. -/
def plain (value : AstString) : Bool := !value.contains singleQuote && !value.contains backslash

/-- A tree of includes and a namespace only, with plain paths. -/
structure AstRoot.Plain (root : AstRoot) : Prop where
  structs : root.structDecls = []
  mappings : root.mapDecls = []
  encodings : root.encoDecls = []
  paths : ∀ inc ∈ root.includes, plain inc.path = true

/-- A token that can be part of a document that is read back: it starts no
declaration, and a string is a plain one. -/
def Token.printable (tok : Token) : Bool :=
  match tok.lexeme with
  | .fixed .structKw | .fixed .mappingKw | .fixed .encodingKw => false
  | .string value => plain value
  | _ => true

namespace PrintingLemmas

open LexingLemmas ScanningLemmas DecidingLemmas CorrectnessLemmas PlacingLemmas

/-! ## Lexing what is printed -/

/-- The text starts with tokens of the given lexemes, and `rest` comes after
them. -/
def Reads (text : List UInt8) (lexemes : List Lexeme) (rest : List UInt8) : Prop :=
  ∀ pos, ∃ toks stop, lex pos text = toks ++ lex stop rest ∧ toks.map Token.lexeme = lexemes

variable {text text' rest : List UInt8} {lexemes lexemes' : List Lexeme}

/-- The text starts with tokens of the given lexemes, whose places are known
wherever the text stands, and `rest` comes after them. -/
def Spells (text : List UInt8) (lexemes : List Lexeme) (rest : List UInt8) : Prop :=
  ∃ mid, text = mid ++ rest ∧ ∀ n pos, ∃ all stop,
    placed n pos text = all ++ placed (n + mid.length) stop rest ∧
      all.map (fun next => next.token.lexeme) = lexemes

theorem Spells.reads (h : Spells text lexemes rest) : Reads text lexemes rest := by
  obtain ⟨mid, _, hplaced⟩ := h
  intro pos
  obtain ⟨all, stop, hall, hlexemes⟩ := hplaced 0 pos
  refine ⟨all.map Place.token, stop, ?_, ?_⟩
  · rw [← placed_token 0 pos text, hall, List.map_append, placed_token]
  · rw [← hlexemes, List.map_map]
    rfl

theorem Spells.refl (text : List UInt8) : Spells text [] text :=
  ⟨[], rfl, fun _ pos => ⟨[], pos, rfl, rfl⟩⟩

theorem Spells.trans (h : Spells text lexemes text') (h' : Spells text' lexemes' rest) :
    Spells text (lexemes ++ lexemes') rest := by
  obtain ⟨mid, rfl, hplaced⟩ := h
  obtain ⟨mid', rfl, hplaced'⟩ := h'
  refine ⟨mid ++ mid', (List.append_assoc _ _ _).symm, fun n pos => ?_⟩
  obtain ⟨all, stop, hall, hlexemes⟩ := hplaced n pos
  obtain ⟨all', stop', hall', hlexemes'⟩ := hplaced' (n + mid.length) stop
  refine ⟨all ++ all', stop', ?_, ?_⟩
  · rw [hall, hall', List.append_assoc, List.length_append, Nat.add_assoc]
  · rw [List.map_append, hlexemes, hlexemes']

theorem spells_blank {c : UInt8} (hc : c = spaceByte ∨ c = lineFeed) (rest : List UInt8) :
    Spells (c :: rest) [] rest := by
  refine ⟨[c], rfl, fun n pos => ?_⟩
  -- One blank more to skip.
  have hskip : ∃ stop, skipBlank false pos (c :: rest) =
      ((skipBlank false stop rest).1, (skipBlank false stop rest).2 + 1) := by
    rcases hc with rfl | rfl
    · exact ⟨pos.nextColumn, rfl⟩
    · exact ⟨pos.nextLine, rfl⟩
  obtain ⟨stop, hskip⟩ := hskip
  refine ⟨[], stop, ?_, rfl⟩
  have hlength : blankLength (c :: rest) = blankLength rest + 1 := by
    rw [← blankLength_eq pos, hskip, blankLength_eq]
  rw [← placed_skip n pos, ← placed_skip _ stop rest, hskip, hlength, List.nil_append,
    List.drop_succ_cons, List.length_singleton, Nat.add_right_comm, Nat.add_assoc]

theorem Spells.blank {c : UInt8} (h : Spells text lexemes (c :: rest))
    (hc : c = spaceByte ∨ c = lineFeed) : Spells text lexemes rest := by
  have hthen := h.trans (spells_blank hc rest)
  rw [List.append_nil] at hthen
  exact hthen

theorem spells_token {c : UInt8} {cs : List UInt8} {lx : Lexeme} {n : Nat}
    (hblank : isBlank c = false) (h : lexeme (c :: cs) = (lx, n + 1)) :
    Spells (c :: cs) [lx] (cs.drop n) := by
  have hstart : blankLength (c :: cs) = 0 := by rw [blankLength, skipBlank_stop _ hblank]
  have hle := lexeme_le (c :: cs)
  have hlen : (lexeme (c :: cs)).2 ≠ 0 := by
    rw [h]
    exact Nat.succ_ne_zero n
  rw [h] at hle
  refine ⟨(c :: cs).take (n + 1), ?_, fun off pos => ?_⟩
  · rw [List.take_succ_cons, List.cons_append, List.take_append_drop]
  · have hplaced := placed_cons hstart hlen off pos
    rw [h] at hplaced
    rw [List.length_take_of_le hle]
    exact ⟨[_], _, hplaced, rfl⟩

/-! ### Words -/

/-- A letter and letters, digits and underscores after it. -/
def Spelled (word : List UInt8) : Prop :=
  ∃ c cs, word = c :: cs ∧ isLetter c = true ∧ ∀ b ∈ cs, isWordByte b = true

/-- Bytes of a class and bytes outside of it differ. -/
theorem byte_ne {f : UInt8 → Bool} {c d : UInt8} (hc : f c = true) (hd : f d = false) :
    c ≠ d := by
  rintro rfl
  cases hc.symm.trans hd

/-- The bytes of a class without blanks are no blanks. -/
theorem isBlank_of_class {f : UInt8 → Bool} {c : UInt8} (hc : f c = true)
    (hf : [spaceByte, tab, lineFeed, carriageReturn, commentMark].all (!f ·) = true) :
    isBlank c = false := by
  have hne : ∀ d ∈ [spaceByte, tab, lineFeed, carriageReturn, commentMark], (c == d) = false := by
    intro d hd
    have hclass : f d = false := by simpa using List.all_eq_true.mp hf d hd
    exact beq_eq_false_iff_ne.mpr (byte_ne hc hclass)
  simp only [List.forall_mem_cons] at hne
  obtain ⟨hspace, htab, hlf, hcr, hcomment, _⟩ := hne
  rw [isBlank, hspace, htab, hlf, hcr, hcomment]
  rfl

theorem isLetter_not_digit {c : UInt8} (h : isLetter c = true) : isDigit c = false := by
  simp only [isLetter, isDigit, Bool.or_eq_true, Bool.and_eq_true, Bool.and_eq_false_iff,
    decide_eq_true_eq, decide_eq_false_iff_not, UInt8.le_iff_toNat_le, UInt8.reduceToNat] at h ⊢
  omega

/-- The run at the start of a text ends where the next byte is no longer in it. -/
theorem takeWhile_run {f : UInt8 → Bool} {cs rest : List UInt8} (hcs : ∀ b ∈ cs, f b = true)
    (hrest : rest.head?.any f = false) : (cs ++ rest).takeWhile f = cs := by
  rw [List.takeWhile_append_of_pos hcs]
  cases rest with
  | nil => simp
  | cons b rest => rw [List.takeWhile_cons_of_neg (by simpa using hrest), List.append_nil]

theorem lexeme_word {c : UInt8} {cs rest : List UInt8} (hc : isLetter c = true)
    (hcs : ∀ b ∈ cs, isWordByte b = true) (hrest : rest.head?.any isWordByte = false) :
    lexeme (c :: (cs ++ rest)) = (wordLexeme (c :: cs), cs.length + 1) := by
  have hne : ∀ {d : UInt8}, isLetter d = false → c ≠ d := fun hd => byte_ne hc hd
  have hnumber : ¬(isDigit c = true ∨ c = minusSign ∨ c = plusSign) := by
    rw [isLetter_not_digit hc]
    rintro (h | h | h)
    · cases h
    · exact hne (by decide) h
    · exact hne (by decide) h
  have hsign : signSymbol c = none := by
    unfold signSymbol
    rw [if_neg (hne (by decide)), if_neg (hne (by decide)), if_neg (hne (by decide)),
      if_neg (hne (by decide)), if_neg (hne (by decide)), if_neg (hne (by decide))]
  have hquote : ¬(c = singleQuote ∨ c = doubleQuote) := by
    rintro (h | h)
    · exact hne (by decide) h
    · exact hne (by decide) h
  unfold lexeme
  dsimp only
  rw [if_neg (hne (by decide)), if_neg hnumber, hsign]
  dsimp only
  rw [if_neg hquote, if_pos hc, takeWhile_run hcs hrest, List.length_cons]

theorem spells_word {word : List UInt8} (hword : Spelled word)
    (hrest : rest.head?.any isWordByte = false) :
    Spells (word ++ rest) [wordLexeme word] rest := by
  obtain ⟨c, cs, rfl, hc, hcs⟩ := hword
  have hspells := spells_token (isBlank_of_class hc (by decide)) (lexeme_word hc hcs hrest)
  rw [List.drop_left] at hspells
  exact hspells

theorem spells_keyword {word : List UInt8} {symbol : Symbol} (hword : Spelled word)
    (hsymbol : wordLexeme word = .fixed symbol) (rest : List UInt8) :
    Spells (word ++ spaceByte :: rest) [.fixed symbol] rest := by
  rw [← hsymbol]
  exact (spells_word hword rfl).blank (Or.inl rfl)

/-! ### Strings -/

theorem plain_cons {c : UInt8} {value : AstString} :
    plain (c :: value) = true ↔ (c ≠ singleQuote ∧ c ≠ backslash) ∧ plain value = true := by
  unfold plain
  simp only [List.contains_cons, Bool.not_or, Bool.and_eq_true, Bool.not_eq_true',
    beq_eq_false_iff_ne]
  constructor
  · rintro ⟨⟨hquote, hrest⟩, hslash, hrest'⟩
    exact ⟨⟨hquote.symm, hslash.symm⟩, hrest, hrest'⟩
  · rintro ⟨⟨hquote, hslash⟩, hrest, hrest'⟩
    exact ⟨⟨hquote.symm, hrest⟩, hslash.symm, hrest'⟩

theorem stringRest_plain {value : AstString} (h : plain value = true) (rest : List UInt8) :
    stringRest singleQuote false (value ++ singleQuote :: rest) =
      some (value, value.length + 1) := by
  induction value with
  | nil => rfl
  | cons c value ih =>
    obtain ⟨⟨hquote, hslash⟩, hplain⟩ := plain_cons.mp h
    rw [List.cons_append, stringRest, if_neg hquote, if_neg hslash, ih hplain]
    rfl

theorem unescape_backslash {c : UInt8} (h : unescape c = backslash) : c = backslash := by
  unfold unescape at h
  split at h
  · cases h
  split at h
  · cases h
  split at h
  · cases h
  · exact h

theorem stringRest_escaped {text value : List UInt8} {n : Nat}
    (h : stringRest singleQuote false (backslash :: text) = some (backslash :: value, n)) :
    ∃ text' n', text = backslash :: text' ∧
      stringRest singleQuote false text' = some (value, n') := by
  rw [stringRest, if_neg (by decide), if_pos rfl] at h
  obtain ⟨⟨value', n'⟩, hrest, heq⟩ := Option.map_eq_some_iff.mp h
  cases heq
  cases text with
  | nil => cases hrest
  | cons d text' =>
    rw [stringRest] at hrest
    obtain ⟨⟨value'', n''⟩, hrest', heq⟩ := Option.map_eq_some_iff.mp hrest
    simp only [Prod.mk.injEq, List.cons.injEq] at heq
    obtain ⟨⟨hunescape, rfl⟩, _⟩ := heq
    exact ⟨text', n'', by rw [unescape_backslash hunescape], hrest'⟩

theorem stringRest_other {c b : UInt8} {text value : List UInt8} {n : Nat} (hc : c ≠ backslash)
    (h : stringRest singleQuote false (c :: text) = some (b :: value, n)) :
    c ≠ singleQuote ∧ b = c ∧ ∃ n', stringRest singleQuote false text = some (value, n') := by
  by_cases hquote : c = singleQuote
  · rw [stringRest, if_pos hquote] at h
    cases h
  · rw [stringRest, if_neg hquote, if_neg hc] at h
    obtain ⟨⟨value', n'⟩, hrest, heq⟩ := Option.map_eq_some_iff.mp h
    cases heq
    exact ⟨hquote, rfl, n', hrest⟩

/-- A literal that goes on with `value` and a quote does not denote `value` with
further backslashes before it: a backslash it denotes takes two of them. -/
theorem stringRest_longer : ∀ (k : Nat) (value rest : List UInt8) (n : Nat),
    stringRest singleQuote false (value ++ singleQuote :: rest) ≠
      some (backslash :: (List.replicate k backslash ++ value), n)
  | _, [], rest, n, h => by
    rw [List.nil_append, stringRest, if_pos rfl] at h
    cases h
  | k, c :: value, rest, n, h => by
    by_cases hc : c = backslash
    · subst hc
      obtain ⟨text, n', htext, hrest⟩ := stringRest_escaped h
      match value with
      | [] => cases htext
      | d :: value =>
        cases htext
        have hmore : List.replicate k backslash ++ backslash :: backslash :: value =
            backslash :: (List.replicate (k + 1) backslash ++ value) := by
          rw [List.append_cons, ← List.replicate_succ', List.append_cons, ← List.replicate_succ']
          rfl
        rw [hmore] at hrest
        exact stringRest_longer (k + 1) value rest n' hrest
    · obtain ⟨_, hb, _⟩ := stringRest_other hc h
      exact hc hb.symm

/-- A string that is read back when it is put between single quotes is a plain
one. -/
theorem plain_of_stringRest {value rest : List UInt8} {n : Nat}
    (h : stringRest singleQuote false (value ++ singleQuote :: rest) = some (value, n)) :
    plain value = true := by
  induction value generalizing n with
  | nil => rfl
  | cons c value ih =>
    by_cases hc : c = backslash
    · subst hc
      obtain ⟨text, n', htext, hrest⟩ := stringRest_escaped h
      match value with
      | [] => cases htext
      | d :: value =>
        cases htext
        exact absurd hrest (stringRest_longer 0 value rest n')
    · obtain ⟨hquote, _, n', hrest⟩ := stringRest_other hc h
      exact plain_cons.mpr ⟨⟨hquote, hc⟩, ih hrest⟩

/-! ### Lines -/

theorem lexeme_quote (cs : List UInt8) : lexeme (singleQuote :: cs) =
    match stringRest singleQuote false cs with
    | some (value, n) => (.string value, n + 1)
    | none => (.openString, 0) := rfl

theorem spells_string {value : AstString} (h : plain value = true) (rest : List UInt8) :
    Spells (singleQuote :: (value ++ singleQuote :: rest)) [.string value] rest := by
  have hlexeme := lexeme_quote (value ++ singleQuote :: rest)
  rw [stringRest_plain h] at hlexeme
  have hspells := spells_token (by decide) hlexeme
  rw [← List.drop_drop, List.drop_left] at hspells
  exact hspells

theorem spelled_include : Spelled includeKeyword :=
  ⟨_, _, rfl, rfl, List.all_eq_true.mp rfl⟩

theorem spelled_namespace : Spelled namespaceKeyword :=
  ⟨_, _, rfl, rfl, List.all_eq_true.mp rfl⟩

theorem spelled_data : Spelled dataKeyword :=
  ⟨_, _, rfl, rfl, List.all_eq_true.mp rfl⟩

/-- The tokens of an include. -/
def includeLexemes (inc : AstInclude) : List Lexeme := [.fixed .includeKw, .string inc.path]

theorem print_include (inc : AstInclude) (rest : List UInt8) :
    inc.print ++ [lineFeed] ++ rest = includeKeyword ++
      spaceByte :: (singleQuote :: (inc.path ++ singleQuote :: (lineFeed :: rest))) := by
  simp [AstInclude.print]

theorem spells_include {inc : AstInclude} (h : plain inc.path = true) (rest : List UInt8) :
    Spells (inc.print ++ [lineFeed] ++ rest) (includeLexemes inc) rest := by
  rw [print_include]
  have hstring := (spells_string h (lineFeed :: rest)).blank (Or.inr rfl)
  exact (spells_keyword spelled_include (by decide) _).trans hstring

theorem spells_includes {incs : List AstInclude} (h : ∀ inc ∈ incs, plain inc.path = true)
    (rest : List UInt8) :
    Spells (incs.flatMap (fun node => node.print ++ [lineFeed]) ++ rest)
      (incs.flatMap includeLexemes) rest := by
  induction incs with
  | nil => exact Spells.refl rest
  | cons inc incs ih =>
    rw [List.flatMap_cons, List.flatMap_cons, List.append_assoc]
    exact (spells_include (h inc (List.mem_cons_self)) _).trans
      (ih fun inc' hinc' => h inc' (List.mem_cons_of_mem _ hinc'))

/-- The spelling of an identifier. -/
def IsWord (word : AstIdentifier) : Prop := Spelled word ∧ wordSymbol word = .identifier

/-- The tokens of a qualified identifier. -/
def qualLexemes (id : AstQualifiedIdentifier) : List Lexeme :=
  id.space.flatMap (fun space => [.identifier space, .fixed .namespaceSep]) ++ [.identifier id.name]

theorem spells_identifier {word : AstIdentifier} (h : IsWord word) (rest : List UInt8)
    (hrest : rest.head?.any isWordByte = false) :
    Spells (word ++ rest) [.identifier word] rest := by
  have hspells := spells_word h.1 hrest
  unfold wordLexeme at hspells
  rw [if_pos h.2] at hspells
  exact hspells

theorem spells_dot (rest : List UInt8) :
    Spells (namespaceSepMark :: rest) [.fixed .namespaceSep] rest :=
  spells_token (by decide) (n := 0) rfl

theorem spells_qual {space : List AstIdentifier} {name : AstIdentifier}
    (hspace : ∀ word ∈ space, IsWord word) (hname : IsWord name) (rest : List UInt8)
    (hrest : rest.head?.any isWordByte = false) :
    Spells (AstQualifiedIdentifier.print ⟨space, name⟩ ++ rest) (qualLexemes ⟨space, name⟩)
      rest := by
  induction space with
  | nil => exact spells_identifier hname _ hrest
  | cons word space ih =>
    have hprint : AstQualifiedIdentifier.print ⟨word :: space, name⟩ ++ rest =
        word ++ namespaceSepMark :: (AstQualifiedIdentifier.print ⟨space, name⟩ ++ rest) := by
      simp [AstQualifiedIdentifier.print]
    rw [hprint]
    have hword := spells_identifier (hspace word List.mem_cons_self)
      (namespaceSepMark :: (AstQualifiedIdentifier.print ⟨space, name⟩ ++ rest)) rfl
    exact (hword.trans (spells_dot _)).trans (ih fun w hw => hspace w (List.mem_cons_of_mem _ hw))

end PrintingLemmas

end Ian.Happy
