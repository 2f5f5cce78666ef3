import Mathlib.Algebra.Ring.Nat
import Mathlib.Tactic.Common

/-!
# The syntax tree of the happy schema language

The data types of `tools/happy/src/Ast.hpp` and the symbols and exceptions of
`tools/happy/src/Parser.hpp`. A `std::string` is its list of bytes. `line` and
`column` are unbounded here.
-/

namespace Ian.Happy

/-- The bytes of a string literal of the source. -/
def bytes (text : List Char) : List UInt8 := text.map Char.toUInt8

structure DocumentPosition where
  file : List UInt8
  line : Nat
  column : Nat
deriving DecidableEq, Repr

abbrev AstIdentifier := List UInt8

structure AstQualifiedIdentifier where
  space : List AstIdentifier
  name : AstIdentifier
deriving DecidableEq, Repr

abbrev AstString := List UInt8

/-- `array_size` is written by `parse_type` only when there is an array suffix;
`none` stands for the member left uninitialised. -/
structure AstType where
  identifier : AstQualifiedIdentifier
  isArray : Bool
  arraySize : Option Int
deriving DecidableEq, Repr

structure AstStructField where
  origin : DocumentPosition
  identifier : AstIdentifier
  type : AstType
deriving DecidableEq, Repr

structure AstStruct where
  origin : DocumentPosition
  identifier : AstIdentifier
  fields : List AstStructField
deriving DecidableEq, Repr

structure AstMappingField where
  origin : DocumentPosition
  identifier : AstIdentifier
  mappingDecl : AstString
deriving DecidableEq, Repr

structure AstMapping where
  origin : DocumentPosition
  structId : AstIdentifier
  mapCategory : AstQualifiedIdentifier
  fields : List AstMappingField
deriving DecidableEq, Repr

/-- The class hierarchy under `AstEncodingNode`: a field, or a `DELTA` block of
nodes. -/
inductive AstEncodingNode where
  | field (origin : DocumentPosition) (identifier encoding : AstIdentifier)
  | deltaBlock (origin : DocumentPosition) (fields : List AstEncodingNode)

structure AstEncoding where
  origin : DocumentPosition
  structId : AstIdentifier
  encoId : AstIdentifier
  fields : List AstEncodingNode

structure AstInclude where
  origin : DocumentPosition
  path : AstString
deriving DecidableEq, Repr

structure AstRoot where
  origin : DocumentPosition
  includes : List AstInclude
  space : AstQualifiedIdentifier
  structDecls : List AstStruct
  mapDecls : List AstMapping
  encoDecls : List AstEncoding

/-- `enum class Symbol`. -/
inductive Symbol where
  | identifier | string | integer | number
  | namespaceKw | includeKw | structKw | mappingKw | encodingKw | deltaKw
  | colon | namespaceSep | curlyOpen | curlyClose | bracketOpen | bracketClose
  | eof | error | invalid
deriving DecidableEq, Repr

/-- `symbol_str`: the name of a symbol in error messages. -/
def symbolStr : Symbol → String
  | .identifier => "identifier"
  | .string => "string"
  | .integer => "integer"
  | .number => "number"
  | .namespaceKw => "namespace_kw"
  | .includeKw => "include_kw"
  | .structKw => "struct_kw"
  | .mappingKw => "mapping_kw"
  | .encodingKw => "encoding_kw"
  | .deltaKw => "delta_kw"
  | .colon => "colon"
  | .namespaceSep => "namespace_sep"
  | .curlyOpen => "curly_open"
  | .curlyClose => "curly_close"
  | .bracketOpen => "bracket_open"
  | .bracketClose => "bracket_close"
  | .eof => "eof"
  | .error => "error"
  | .invalid => "???"

/-- What the parser can throw: `ParseException`, or the `std::logic_error` of
`parse_symbol`. -/
inductive Exception where
  | parse (position : DocumentPosition) (message : String)
  | logicError (message : String)
deriving DecidableEq, Repr

/-! ## Bytes -/

def commentMark : UInt8 := Char.toUInt8 '#'
def colonMark : UInt8 := Char.toUInt8 ':'
def namespaceSepMark : UInt8 := Char.toUInt8 '.'
def curlyOpenMark : UInt8 := 0x7b
def curlyCloseMark : UInt8 := 0x7d
def bracketOpenMark : UInt8 := Char.toUInt8 '['
def bracketCloseMark : UInt8 := Char.toUInt8 ']'

def nul : UInt8 := 0x00
def tab : UInt8 := 0x09
def lineFeed : UInt8 := 0x0a
def carriageReturn : UInt8 := 0x0d
def spaceByte : UInt8 := 0x20
def doubleQuote : UInt8 := 0x22
def singleQuote : UInt8 := 0x27
def plusSign : UInt8 := 0x2b
def minusSign : UInt8 := 0x2d
def backslash : UInt8 := 0x5c

def isDigit (c : UInt8) : Bool := 0x30 ≤ c && c ≤ 0x39
def isLetter (c : UInt8) : Bool := (0x61 ≤ c && c ≤ 0x7a) || (0x41 ≤ c && c ≤ 0x5a)
def isWordByte (c : UInt8) : Bool := isLetter c || isDigit c || c == 0x5f

def namespaceKeyword : List UInt8 := bytes ['N', 'A', 'M', 'E', 'S', 'P', 'A', 'C', 'E']
def includeKeyword : List UInt8 := bytes ['I', 'N', 'C', 'L', 'U', 'D', 'E']
def structKeyword : List UInt8 := bytes ['S', 'T', 'R', 'U', 'C', 'T']
def mappingKeyword : List UInt8 := bytes ['M', 'A', 'P', 'P', 'I', 'N', 'G']
def encodingKeyword : List UInt8 := bytes ['E', 'N', 'C', 'O', 'D', 'I', 'N', 'G']
def deltaKeyword : List UInt8 := bytes ['D', 'E', 'L', 'T', 'A']

/-- `DEFAULT_ENCODING`. -/
def defaultEncoding : AstIdentifier := bytes ['D', 'E', 'F', 'A', 'U', 'L', 'T']

/-- The 64-bit value a mathematical integer wraps to: the accumulator of
`parse_integer` is a two's-complement `int64_t`. -/
def wrapInt64 (n : Int) : Int := n.bmod (2 ^ 64)

end Ian.Happy
