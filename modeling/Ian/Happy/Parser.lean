import Ian.Lib.Run
import Ian.Happy.Ast

/-!
# The happy parser

The member functions of `tools/happy/src/Parser.cpp`, in three layers.

* `Source`: the read buffer, through the three ways the parser touches it
  (`peek_at`, `buffer_offset_ += n`, `trim_opportunity`). The parser's own
  buffer over a `StreamReader` and a stream held whole in memory are two
  sources.
* The lexical functions, from `skip_whitespace` to `parse_integer`, over a
  source. `Lexer` is what the grammar functions use of them.
* The grammar functions, from `parse_qualified_identifier` to
  `parse_document`, over a lexer.

Every loop and the recursion through `parse_encoding_node` spend fuel, each
loop starting with the whole `fuel`. `parse_number` has no caller and is left
out.
-/

namespace Ian.Happy

open Ian.Lib Run

/-- How the parser reaches its text: `peek_at`, moving the cursor forward
(`buffer_offset_ += n`), and `trim_opportunity`. -/
structure Source (σ : Type) where
  peekAt : Nat → Run σ Exception UInt8
  skip : Nat → σ → σ
  trimOpportunity : σ → σ

/-- The members of class `Parser`; `source` stands for the buffer and the
reader. -/
structure Parser (σ : Type) where
  source : σ
  pos : DocumentPosition
  nextSymbol : Symbol

/-- The parser as its constructor leaves it. -/
def Parser.init {σ : Type} (filename : List UInt8) (source : σ) : Parser σ :=
  { source, pos := ⟨filename, 1, 0⟩, nextSymbol := .invalid }

/-- A member function of class `Parser`. -/
abbrev ParserM (σ α : Type) := Run (Parser σ) Exception α

def DocumentPosition.nextColumn (pos : DocumentPosition) : DocumentPosition :=
  { pos with column := pos.column + 1 }

def DocumentPosition.nextLine (pos : DocumentPosition) : DocumentPosition :=
  { pos with line := pos.line + 1, column := 0 }

/-! ## Lexical functions -/

section

variable {σ : Type} (src : Source σ) (fuel : Nat)

def peekAt (offset : Nat) : ParserM σ UInt8 :=
  ⟨fun p => ((src.peekAt offset).run p.source |>.1,
    { p with source := ((src.peekAt offset).run p.source).2 })⟩

/-- `buffer_offset_ += n`. -/
def skip (n : Nat) : ParserM σ Unit :=
  modify fun p => { p with source := src.skip n p.source }

def trimOpportunity : ParserM σ Unit :=
  modify fun p => { p with source := src.trimOpportunity p.source }

def modifyPos (f : DocumentPosition → DocumentPosition) : ParserM σ Unit :=
  modify fun p => { p with pos := f p.pos }

def isBlank (c : UInt8) : Bool :=
  c == spaceByte || c == tab || c == lineFeed || c == carriageReturn || c == commentMark

/-- One iteration of the `do … while` that skips a comment. -/
def skipCommentStep (_ : Unit) : ParserM σ (Iter Unit UInt8) := do
  modifyPos .nextColumn
  skip src 1
  let c ← peekAt src 0
  if c != nul && c != lineFeed && c != carriageReturn then
    pure (.again ())
  else
    pure (.done c)

/-- Skip a comment; returns the byte after it. -/
def skipComment : ParserM σ UInt8 := loop (skipCommentStep src) fuel ()

/-- One iteration of `skip_whitespace`, with `c` under the cursor. -/
def skipWhitespaceStep (c : UInt8) : ParserM σ (Iter UInt8 Unit) := do
  if isBlank c then
    modifyPos fun pos => if c == spaceByte || c == tab then pos.nextColumn else pos
    modifyPos fun pos => if c == lineFeed then pos.nextLine else pos
    if c == commentMark then
      let c ← skipComment src fuel
      pure (.again c)
    else
      skip src 1
      let c ← peekAt src 0
      pure (.again c)
  else
    pure (.done ())

def skipWhitespace : ParserM σ Unit := do
  let c ← peekAt src 0
  loop (skipWhitespaceStep src fuel) fuel c
  trimOpportunity src

/-- The position after the byte `c`, as `advance` counts it. -/
def DocumentPosition.after (pos : DocumentPosition) (c : UInt8) : DocumentPosition :=
  if c == lineFeed then pos.nextLine else pos.nextColumn

/-- The `for` loop of `advance`, with `n` iterations left at index `i`. -/
def advancePos : Nat → Nat → ParserM σ Unit
  | 0, _ => pure ()
  | n + 1, i => do
    let c ← peekAt src i
    modifyPos fun pos => pos.after c
    advancePos n (i + 1)

def advance (offset : Nat) : ParserM σ Unit := do
  advancePos src offset 0
  skip src offset
  modify fun p => { p with nextSymbol := .invalid }
  trimOpportunity src

/-- `return (next_symbol_ = s)`. -/
def setSymbol (s : Symbol) : ParserM σ Symbol :=
  ⟨fun p => (.ok s, { p with nextSymbol := s })⟩

/-- One iteration of the scan of `peek_symbol` over a number. -/
def scanNumberStep (off : Nat) : ParserM σ (Iter Nat Symbol) := do
  let c ← peekAt src off
  if isDigit c || c == namespaceSepMark then
    if c == namespaceSepMark then
      pure (.done .number)
    else
      pure (.again (off + 1))
  else
    pure (.done .integer)

/-- The scan of `peek_symbol` over a number: `integer`, or `number` when a dot
follows the digits. -/
def scanNumber : ParserM σ Symbol := loop (scanNumberStep src) fuel 1

/-- The scan of `peek_symbol` over a word, which starts with `first`. -/
def scanWord (first : UInt8) : ParserM σ (List UInt8) :=
  loop (fun (off, str) => do
    let c ← peekAt src off
    if isWordByte c then
      pure (.again (off + 1, str ++ [c]))
    else
      pure (.done str)) fuel (1, [first])

/-- The keyword a word spells, or `identifier`. -/
def wordSymbol (str : List UInt8) : Symbol :=
  if str = namespaceKeyword then .namespaceKw
  else if str = includeKeyword then .includeKw
  else if str = structKeyword then .structKw
  else if str = mappingKeyword then .mappingKw
  else if str = encodingKeyword then .encodingKw
  else if str = deltaKeyword then .deltaKw
  else .identifier

/-- The symbol of a one-byte sign. -/
def signSymbol (c : UInt8) : Option Symbol :=
  if c = colonMark then some .colon
  else if c = namespaceSepMark then some .namespaceSep
  else if c = curlyOpenMark then some .curlyOpen
  else if c = curlyCloseMark then some .curlyClose
  else if c = bracketOpenMark then some .bracketOpen
  else if c = bracketCloseMark then some .bracketClose
  else none

def peekSymbol : ParserM σ Symbol := do
  let cached ← gets Parser.nextSymbol
  if cached != .invalid then
    return cached
  skipWhitespace src fuel
  let c ← peekAt src 0
  if c == nul then
    setSymbol .eof
  else if isDigit c || c == minusSign || c == plusSign then
    let s ← scanNumber src fuel
    setSymbol s
  else
    match signSymbol c with
    | some s => setSymbol s
    | none =>
      if c == singleQuote || c == doubleQuote then
        setSymbol .string
      else if isLetter c then
        let str ← scanWord src fuel c
        setSymbol (wordSymbol str)
      else
        setSymbol .error

end

section

variable {σ : Type} (peekSymbol : Run σ Exception Symbol) (currentPosition : σ → DocumentPosition)

/-- `unexpected(Symbol)`. -/
def unexpected {α : Type} (expected : Symbol) : Run σ Exception α := do
  let found ← peekSymbol
  let position ← gets currentPosition
  raise (.parse position
    (if expected != .invalid then
      "Unexpected symbol " ++ symbolStr found ++ ", expected " ++ symbolStr expected
    else
      "Unexpected symbol " ++ symbolStr found))

/-- `unexpected(const char *)`. -/
def unexpectedIn {α : Type} (context : String) : Run σ Exception α := do
  let found ← peekSymbol
  let position ← gets currentPosition
  raise (.parse position ("Unexpected symbol " ++ symbolStr found ++ " in " ++ context))

def expect (expected : Symbol) : Run σ Exception Unit := do
  let found ← peekSymbol
  if found != expected then
    unexpected peekSymbol currentPosition expected

end

/-- The number of bytes `parse_symbol` consumes for a sign or a keyword; for
any other symbol it throws. -/
def symbolLength : Symbol → Option Nat
  | .colon | .namespaceSep | .curlyOpen | .curlyClose | .bracketOpen | .bracketClose => some 1
  | .namespaceKw => some namespaceKeyword.length
  | .includeKw => some includeKeyword.length
  | .structKw => some structKeyword.length
  | .mappingKw => some mappingKeyword.length
  | .encodingKw => some encodingKeyword.length
  | .deltaKw => some deltaKeyword.length
  | _ => none

section

variable {σ : Type} (src : Source σ) (fuel : Nat)

def parseSymbol (symbol : Symbol) : ParserM σ Unit := do
  expect (peekSymbol src fuel) Parser.pos symbol
  match symbolLength symbol with
  | some n => advance src n
  | none => raise (.logicError "Invalid parse_symbol usage")
  trimOpportunity src

def parseIdentifier : ParserM σ AstIdentifier := do
  expect (peekSymbol src fuel) Parser.pos .identifier
  let (len, ret) ← loop (fun (len, ret) => do
    let c ← peekAt src len
    if isWordByte c then
      pure (.again (len + 1, ret ++ [c]))
    else
      pure (.done (len, ret))) fuel (0, [])
  advance src len
  return ret

/-- The byte an escape sequence stands for. -/
def unescape (c : UInt8) : UInt8 :=
  if c = Char.toUInt8 'n' then lineFeed
  else if c = Char.toUInt8 't' then tab
  else if c = Char.toUInt8 '0' then nul
  else c

/-- One iteration of the loop of `parse_string`. It looks for the delimiter
only: there is no test for the end of the stream. -/
def parseStringStep (delim : UInt8) (b : Nat × AstString) :
    ParserM σ (Iter (Nat × AstString) (Nat × AstString)) := do
  let (len, ret) := b
  let c ← peekAt src len
  if c == delim then
    pure (.done (len + 1, ret))
  else if c == backslash then
    let c ← peekAt src (len + 1)
    pure (.again (len + 2, ret ++ [unescape c]))
  else
    pure (.again (len + 1, ret ++ [c]))

def parseString : ParserM σ AstString := do
  expect (peekSymbol src fuel) Parser.pos .string
  let delim ← peekAt src 0
  let (len, ret) ← loop (parseStringStep src delim) fuel (1, [])
  advance src len
  return ret

/-- One iteration of the loop of `parse_integer`. -/
def parseIntegerStep (b : Nat × Int) : ParserM σ (Iter (Nat × Int) (Nat × Int)) := do
  let (len, ret) := b
  let c ← peekAt src len
  if !isDigit c then
    pure (.done (len, ret))
  else
    pure (.again (len + 1, wrapInt64 (ret * 10 + (c.toNat - 0x30 : Nat))))

def parseInteger : ParserM σ Int := do
  expect (peekSymbol src fuel) Parser.pos .integer
  let first ← peekAt src 0
  let start := if first == minusSign || first == plusSign then 1 else 0
  let (len, ret) ← loop (parseIntegerStep src) fuel (start, 0)
  advance src len
  return if first == minusSign then wrapInt64 (-ret) else ret

end

/-! ## Grammar functions -/

/-- The token functions as the grammar functions use them. -/
structure Lexer (σ : Type) where
  peekSymbol : Run σ Exception Symbol
  parseSymbol : Symbol → Run σ Exception Unit
  parseIdentifier : Run σ Exception AstIdentifier
  parseString : Run σ Exception AstString
  parseInteger : Run σ Exception Int
  currentPosition : σ → DocumentPosition

/-- The lexical functions of class `Parser` over a source. -/
def scanner {σ : Type} (src : Source σ) (fuel : Nat) : Lexer (Parser σ) where
  peekSymbol := peekSymbol src fuel
  parseSymbol := parseSymbol src fuel
  parseIdentifier := parseIdentifier src fuel
  parseString := parseString src fuel
  parseInteger := parseInteger src fuel
  currentPosition := Parser.pos

section

variable {σ : Type} (lx : Lexer σ) (fuel : Nat)

/-- One iteration of the loop of `parse_qualified_identifier`: the namespaces
so far and the last identifier read. -/
def parseQualifiedStep (b : List AstIdentifier × AstIdentifier) :
    Run σ Exception (Iter (List AstIdentifier × AstIdentifier) AstQualifiedIdentifier) := do
  if (← lx.peekSymbol) == .namespaceSep then
    lx.parseSymbol .namespaceSep
    let next ← lx.parseIdentifier
    pure (.again (b.1 ++ [b.2], next))
  else
    pure (.done { space := b.1, name := b.2 })

def parseQualifiedIdentifier : Run σ Exception AstQualifiedIdentifier := do
  let tmp ← lx.parseIdentifier
  loop (parseQualifiedStep lx) fuel ([], tmp)

def parseType : Run σ Exception AstType := do
  let identifier ← parseQualifiedIdentifier lx fuel
  let isArray := (← lx.peekSymbol) == .bracketOpen
  if isArray then
    lx.parseSymbol .bracketOpen
    let size ← lx.parseInteger
    lx.parseSymbol .bracketClose
    return { identifier, isArray, arraySize := some size }
  else
    return { identifier, isArray, arraySize := none }

def parseInclude : Run σ Exception AstInclude := do
  let origin ← gets lx.currentPosition
  lx.parseSymbol .includeKw
  let path ← lx.parseString
  return { origin, path }

/-- One iteration of the loop of a `{ … }` body. -/
def parseFieldsStep {α : Type} (item : Run σ Exception α) (fields : List α) :
    Run σ Exception (Iter (List α) (List α)) := do
  if (← lx.peekSymbol) != .curlyClose then
    let field ← item
    pure (.again (fields ++ [field]))
  else
    pure (.done fields)

/-- `while (peek_symbol() != curly_close) fields.emplace_back(item())`, the
loop of every `{ … }` body. -/
def parseFields {α : Type} (item : Run σ Exception α) : Run σ Exception (List α) :=
  loop (parseFieldsStep lx item) fuel []

def parseStructField : Run σ Exception AstStructField := do
  let origin ← gets lx.currentPosition
  let identifier ← lx.parseIdentifier
  lx.parseSymbol .colon
  let type ← parseType lx fuel
  return { origin, identifier, type }

def parseStruct : Run σ Exception AstStruct := do
  let origin ← gets lx.currentPosition
  lx.parseSymbol .structKw
  let identifier ← lx.parseIdentifier
  lx.parseSymbol .curlyOpen
  let fields ← parseFields lx fuel (parseStructField lx fuel)
  lx.parseSymbol .curlyClose
  return { origin, identifier, fields }

def parseMappingField : Run σ Exception AstMappingField := do
  let origin ← gets lx.currentPosition
  let identifier ← lx.parseIdentifier
  lx.parseSymbol .colon
  let mappingDecl ← lx.parseString
  return { origin, identifier, mappingDecl }

def parseMapping : Run σ Exception AstMapping := do
  let origin ← gets lx.currentPosition
  lx.parseSymbol .mappingKw
  let structId ← lx.parseIdentifier
  lx.parseSymbol .colon
  let mapCategory ← parseQualifiedIdentifier lx fuel
  lx.parseSymbol .curlyOpen
  let fields ← parseFields lx fuel (parseMappingField lx)
  lx.parseSymbol .curlyClose
  return { origin, structId, mapCategory, fields }

/-- `[: id]`, the part shared by `parse_encoding` and `parse_encoding_field`. -/
def parseEncodingName : Run σ Exception AstIdentifier := do
  if (← lx.peekSymbol) == .colon then
    lx.parseSymbol .colon
    lx.parseIdentifier
  else
    return defaultEncoding

def parseEncodingField : Run σ Exception AstEncodingNode := do
  let origin ← gets lx.currentPosition
  let identifier ← lx.parseIdentifier
  let encoding ← parseEncodingName lx
  return .field origin identifier encoding

/-- `parse_encoding_delta_block`, given `parse_encoding_node` for the nodes
inside. -/
def parseEncodingDeltaBlock (node : Run σ Exception AstEncodingNode) :
    Run σ Exception AstEncodingNode := do
  let origin ← gets lx.currentPosition
  lx.parseSymbol .deltaKw
  match ← lx.peekSymbol with
  | .identifier =>
    let field ← node
    return .deltaBlock origin [field]
  | .curlyOpen =>
    lx.parseSymbol .curlyOpen
    let fields ← parseFields lx fuel node
    lx.parseSymbol .curlyClose
    return .deltaBlock origin fields
  | _ => unexpectedIn lx.peekSymbol lx.currentPosition "encoding_delta_block"

/-- `parse_encoding_node`; the first argument bounds the depth of the
recursion through `parse_encoding_delta_block`. -/
def parseEncodingNode : Nat → Run σ Exception AstEncodingNode
  | 0 => ⟨fun s => (.outOfFuel, s)⟩
  | depth + 1 => do
    match ← lx.peekSymbol with
    | .deltaKw => parseEncodingDeltaBlock lx fuel (parseEncodingNode depth)
    | .identifier => parseEncodingField lx
    | _ => unexpectedIn lx.peekSymbol lx.currentPosition "encoding_node"

def parseEncoding : Run σ Exception AstEncoding := do
  let origin ← gets lx.currentPosition
  lx.parseSymbol .encodingKw
  let structId ← lx.parseIdentifier
  let encoId ← parseEncodingName lx
  lx.parseSymbol .curlyOpen
  let fields ← parseFields lx fuel (parseEncodingNode lx fuel fuel)
  lx.parseSymbol .curlyClose
  return { origin, structId, encoId, fields }

/-- One iteration of the include loop of `parse_document`. -/
def parseIncludesStep (includes : List AstInclude) :
    Run σ Exception (Iter (List AstInclude) (List AstInclude)) := do
  if (← lx.peekSymbol) == .includeKw then
    let node ← parseInclude lx
    pure (.again (includes ++ [node]))
  else
    pure (.done includes)

/-- The namespace part of `parse_document`. -/
def parseNamespace : Run σ Exception AstQualifiedIdentifier := do
  if (← lx.peekSymbol) == .namespaceKw then
    lx.parseSymbol .namespaceKw
    parseQualifiedIdentifier lx fuel
  else
    return { space := [], name := [] }

/-- One iteration of the declaration loop of `parse_document`. -/
def parseDeclStep (root : AstRoot) : Run σ Exception (Iter AstRoot AstRoot) := do
  match ← lx.peekSymbol with
  | .structKw =>
    let node ← parseStruct lx fuel
    pure (.again { root with structDecls := root.structDecls ++ [node] })
  | .mappingKw =>
    let node ← parseMapping lx fuel
    pure (.again { root with mapDecls := root.mapDecls ++ [node] })
  | .encodingKw =>
    let node ← parseEncoding lx fuel
    pure (.again { root with encoDecls := root.encoDecls ++ [node] })
  | .eof => pure (.done root)
  | _ => unexpectedIn lx.peekSymbol lx.currentPosition "document"

def parseDocument : Run σ Exception AstRoot := do
  let origin ← gets lx.currentPosition
  let includes ← loop (parseIncludesStep lx) fuel []
  let space ← parseNamespace lx fuel
  loop (parseDeclStep lx fuel) fuel
    { origin, includes, space, structDecls := [], mapDecls := [], encoDecls := [] }

end

end Ian.Happy
