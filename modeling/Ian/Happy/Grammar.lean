import Ian.Lib.Grammar
import Ian.Happy.Scanning

/-!
# The reference grammar

    document = (INCLUDE string)* [NAMESPACE qual] (struct | mapping | encoding)* end
    qual     = id ('.' id)*
    struct   = STRUCT id '{' (id ':' qual ['[' integer ']'])* '}'
    mapping  = MAPPING id ':' qual '{' (id ':' string)* '}'
    encoding = ENCODING id [':' id] '{' enode* '}'
    enode    = id [':' id] | DELTA (id [':' id] | '{' enode* '}')

Each rule says which tokens it reads and what tree they stand for. Every node
has the position of its first token as its origin, except for the document,
whose origin is the start of the file. A missing encoding name is `DEFAULT`, a
missing namespace is empty, and declarations of one kind are kept in order.

`Hangs` describes the token sequences on which the grammar calls for a string
exactly where a literal starts that is never closed.
-/

namespace Ian.Happy

open Ian.Lib Rule

/-! ## Terminals -/

/-- A token of the lexeme that `take` reads. -/
def terminal {α : Type} (take : Lexeme → Option α) : Rule Token α :=
  fun toks a rest => ∃ tok, toks = tok :: rest ∧ take tok.lexeme = some a

def fixedRule (symbol : Symbol) : Rule Token Unit := terminal (Lexeme.takeFixed symbol)

def identifierRule : Rule Token AstIdentifier := terminal Lexeme.takeIdentifier

def stringRule : Rule Token AstString := terminal Lexeme.takeString

def integerRule : Rule Token Int := terminal Lexeme.takeInteger

/-- The position of the token that comes next. -/
def startRule : Rule Token DocumentPosition :=
  fun toks origin rest => origin = startOf toks ∧ rest = toks

/-- The end of the document. -/
def endRule : Rule Token Unit :=
  fun toks _ rest => (headLexeme toks).symbol = .eof ∧ rest = toks

/-! ## Rules -/

/-- The qualified identifier of the words `first` and `more`: the last one is
the name and the ones before it are the namespace. -/
def qualified (first : AstIdentifier) (more : List AstIdentifier) : AstQualifiedIdentifier :=
  { space := (first :: more).dropLast, name := (first :: more).getLast (List.cons_ne_nil _ _) }

/-- `'.' id`. -/
def dottedRule : Rule Token AstIdentifier := do
  fixedRule .namespaceSep
  identifierRule

def qualRule : Rule Token AstQualifiedIdentifier := do
  let first ← identifierRule
  let more ← many dottedRule
  return qualified first more

/-- `'[' integer ']'`. -/
def arrayRule : Rule Token Int := do
  fixedRule .bracketOpen
  let size ← integerRule
  fixedRule .bracketClose
  return size

def typeRule : Rule Token AstType := do
  let identifier ← qualRule
  either
    (do
      let size ← arrayRule
      return { identifier, isArray := true, arraySize := some size })
    (return { identifier, isArray := false, arraySize := none })

def includeRule : Rule Token AstInclude := do
  let origin ← startRule
  fixedRule .includeKw
  let path ← stringRule
  return { origin, path }

def structFieldRule : Rule Token AstStructField := do
  let origin ← startRule
  let identifier ← identifierRule
  fixedRule .colon
  let type ← typeRule
  return { origin, identifier, type }

def structRule : Rule Token AstStruct := do
  let origin ← startRule
  fixedRule .structKw
  let identifier ← identifierRule
  fixedRule .curlyOpen
  let fields ← many structFieldRule
  fixedRule .curlyClose
  return { origin, identifier, fields }

def mappingFieldRule : Rule Token AstMappingField := do
  let origin ← startRule
  let identifier ← identifierRule
  fixedRule .colon
  let mappingDecl ← stringRule
  return { origin, identifier, mappingDecl }

def mappingRule : Rule Token AstMapping := do
  let origin ← startRule
  fixedRule .mappingKw
  let structId ← identifierRule
  fixedRule .colon
  let mapCategory ← qualRule
  fixedRule .curlyOpen
  let fields ← many mappingFieldRule
  fixedRule .curlyClose
  return { origin, structId, mapCategory, fields }

/-- `[':' id]`. -/
def encodingNameRule : Rule Token AstIdentifier :=
  either
    (do
      fixedRule .colon
      identifierRule)
    (return defaultEncoding)

def encodingFieldRule : Rule Token AstEncodingNode := do
  let origin ← startRule
  let identifier ← identifierRule
  let encoding ← encodingNameRule
  return .field origin identifier encoding

/-- The rule `enode`, the one recursive rule. -/
inductive EncodingNode : List Token → AstEncodingNode → List Token → Prop
  | field {toks rest : List Token} {node : AstEncodingNode} :
      encodingFieldRule toks node rest → EncodingNode toks node rest
  | deltaField {toks mid rest : List Token} {node : AstEncodingNode} :
      fixedRule .deltaKw toks () mid → encodingFieldRule mid node rest →
      EncodingNode toks (.deltaBlock (startOf toks) [node]) rest
  | deltaBlock {toks mid inner last rest : List Token} {nodes : List AstEncodingNode} :
      fixedRule .deltaKw toks () mid → fixedRule .curlyOpen mid () inner →
      Many EncodingNode inner nodes last → fixedRule .curlyClose last () rest →
      EncodingNode toks (.deltaBlock (startOf toks) nodes) rest

def encodingRule : Rule Token AstEncoding := do
  let origin ← startRule
  fixedRule .encodingKw
  let structId ← identifierRule
  let encoId ← encodingNameRule
  fixedRule .curlyOpen
  let fields ← many EncodingNode
  fixedRule .curlyClose
  return { origin, structId, encoId, fields }

/-- A declaration of any kind. -/
inductive Decl where
  | struct (node : AstStruct)
  | mapping (node : AstMapping)
  | encoding (node : AstEncoding)

def declRule : Rule Token Decl :=
  either (Decl.struct <$> structRule)
    (either (Decl.mapping <$> mappingRule) (Decl.encoding <$> encodingRule))

/-- The tree with one more declaration. -/
def AstRoot.declare (root : AstRoot) : Decl → AstRoot
  | .struct node => { root with structDecls := root.structDecls ++ [node] }
  | .mapping node => { root with mapDecls := root.mapDecls ++ [node] }
  | .encoding node => { root with encoDecls := root.encoDecls ++ [node] }

/-- `[NAMESPACE qual]`. -/
def namespaceRule : Rule Token AstQualifiedIdentifier :=
  either
    (do
      fixedRule .namespaceKw
      qualRule)
    (return { space := [], name := [] })

def documentRule (filename : List UInt8) : Rule Token AstRoot := do
  let includes ← many includeRule
  let space ← namespaceRule
  let decls ← many declRule
  endRule
  return decls.foldl AstRoot.declare
    { origin := ⟨filename, 1, 0⟩, includes, space, structDecls := [], mapDecls := [],
      encoDecls := [] }

/-- The token sequence of a document derives the tree `t`. -/
def Derives (filename : List UInt8) (toks : List Token) (t : AstRoot) : Prop :=
  ∃ rest, documentRule filename toks t rest

/-! ## Where a string is called for -/

/-- The part of an include before its string. -/
def includeHeadRule : Rule Token Unit := do
  let _ ← many includeRule
  fixedRule .includeKw

/-- The part of a mapping before the string of one of its fields. -/
def mappingHeadRule : Rule Token Unit := do
  fixedRule .mappingKw
  let _ ← identifierRule
  fixedRule .colon
  let _ ← qualRule
  fixedRule .curlyOpen
  let _ ← many mappingFieldRule
  let _ ← identifierRule
  fixedRule .colon

/-- The part of a document before the string of a mapping field. -/
def mappingPrefixRule : Rule Token Unit := do
  let _ ← many includeRule
  let _ ← namespaceRule
  let _ ← many declRule
  mappingHeadRule

/-- A string literal that is never closed comes next. -/
def OpenString (toks : List Token) : Prop := headLexeme toks = .openString

/-- Where the grammar calls for a string there is a literal that is never
closed. -/
def Hangs (toks : List Token) : Prop :=
  ∃ rest, (includeHeadRule toks () rest ∨ mappingPrefixRule toks () rest) ∧ OpenString rest

end Ian.Happy
