import Ian.Happy.Parser
import Mathlib.Data.List.TakeWhile

/-!
# The reference token sequence

The lexical grammar of the language, written over the bytes of the document
and not over the parser's cursor:

* blanks are spaces, tabs, CR, LF and comments (`#` up to CR, LF or the end);
* a word is a letter and the whole run of letters, digits and underscores after
  it, and a keyword if it is spelled like one;
* an integer is a sign or a digit and the whole run of digits after it, not
  followed by a dot;
* a string is quoted by either quote and can escape any byte;
* `: . { } [ ]` are signs.

Anything else is a lexeme no rule of the grammar uses, and the token sequence
ends with it: `number`, `error`, and `openString` for a string literal that is
never closed. A NUL byte outside a string literal reads as the end of the
document, which is how `peek_at` reports it.
-/

namespace Ian.Happy

/-- What a token is. -/
inductive Lexeme where
  | identifier (name : AstIdentifier)
  | string (value : AstString)
  | integer (value : Int)
  | fixed (symbol : Symbol)
  | eof
  | number
  | error
  | openString
deriving DecidableEq, Repr

/-- The symbol the parser sees for a lexeme. -/
def Lexeme.symbol : Lexeme → Symbol
  | .identifier _ => .identifier
  | .string _ => .string
  | .integer _ => .integer
  | .fixed symbol => symbol
  | .eof => .eof
  | .number => .number
  | .error => .error
  | .openString => .string

/-- A lexeme with the positions of its first byte and of the byte after it. -/
structure Token where
  lexeme : Lexeme
  start : DocumentPosition
  stop : DocumentPosition
deriving DecidableEq, Repr

/-- The position after a run of bytes of a token. -/
def DocumentPosition.over (pos : DocumentPosition) (text : List UInt8) : DocumentPosition :=
  text.foldl DocumentPosition.after pos

/-- Skip blanks: the position after them and how many bytes they are. The flag
says that the bytes are inside a comment. A CR does not count as a column. -/
def skipBlank : Bool → DocumentPosition → List UInt8 → DocumentPosition × Nat
  | _, pos, [] => (pos, 0)
  | comment, pos, c :: cs =>
    if c = lineFeed then
      let (pos', n) := skipBlank false pos.nextLine cs
      (pos', n + 1)
    else if c = carriageReturn then
      let (pos', n) := skipBlank false pos cs
      (pos', n + 1)
    else if comment = true ∧ c ≠ nul then
      let (pos', n) := skipBlank true pos.nextColumn cs
      (pos', n + 1)
    else if c = spaceByte ∨ c = tab then
      let (pos', n) := skipBlank false pos.nextColumn cs
      (pos', n + 1)
    else if c = commentMark then
      let (pos', n) := skipBlank true pos.nextColumn cs
      (pos', n + 1)
    else (pos, 0)

/-- The number a run of decimal digits denotes. -/
def decimal (digits : List UInt8) : Nat :=
  digits.foldl (fun n d => n * 10 + (d.toNat - 0x30)) 0

/-- The value of an integer lexeme: its first byte and the digits after it. -/
def integerValue (first : UInt8) (digits : List UInt8) : Int :=
  if first = minusSign then -(decimal digits : Int)
  else if first = plusSign then decimal digits
  else decimal (first :: digits)

/-- The rest of a string literal after its opening quote: the string it denotes
and how many bytes it takes, the closing quote included; `none` if it is never
closed. The flag says that the first byte is escaped. -/
def stringRest (delim : UInt8) : Bool → List UInt8 → Option (AstString × Nat)
  | _, [] => none
  | true, c :: cs =>
    (stringRest delim false cs).map fun (value, n) => (unescape c :: value, n + 1)
  | false, c :: cs =>
    if c = delim then some ([], 1)
    else if c = backslash then
      (stringRest delim true cs).map fun (value, n) => (value, n + 1)
    else
      (stringRest delim false cs).map fun (value, n) => (c :: value, n + 1)

/-- The lexeme of a word. -/
def wordLexeme (word : List UInt8) : Lexeme :=
  if wordSymbol word = .identifier then .identifier word else .fixed (wordSymbol word)

/-- The lexeme at the start of `text`, which does not start with a blank, and
its length in bytes. The value of an integer is reduced to 64 bits, as the
accumulator of `parse_integer` is. A lexeme the grammar has no use for has
length 0. -/
def lexeme : List UInt8 → Lexeme × Nat
  | [] => (.eof, 0)
  | c :: cs =>
    if c = nul then (.eof, 0)
    else if isDigit c ∨ c = minusSign ∨ c = plusSign then
      let digits := cs.takeWhile isDigit
      if (cs.drop digits.length).head? = some namespaceSepMark then (.number, 0)
      else (.integer (wrapInt64 (integerValue c digits)), digits.length + 1)
    else
      match signSymbol c with
      | some symbol => (.fixed symbol, 1)
      | none =>
        if c = singleQuote ∨ c = doubleQuote then
          match stringRest c false cs with
          | some (value, n) => (.string value, n + 1)
          | none => (.openString, 0)
        else if isLetter c then
          let word := c :: cs.takeWhile isWordByte
          (wordLexeme word, word.length)
        else (.error, 0)

/-- At most `n` tokens from `pos` on. -/
def lexUpTo : Nat → DocumentPosition → List UInt8 → List Token
  | 0, _, _ => []
  | n + 1, pos, text =>
    let (start, blanks) := skipBlank false pos text
    let (lex, length) := lexeme (text.drop blanks)
    let stop := start.over ((text.drop blanks).take length)
    if length = 0 then [⟨lex, start, stop⟩]
    else ⟨lex, start, stop⟩ :: lexUpTo n stop (text.drop (blanks + length))

/-- The token sequence of a text that starts at `pos`. Its last token is the
end of the document or the first lexeme the grammar has no use for. -/
def lex (pos : DocumentPosition) (text : List UInt8) : List Token :=
  lexUpTo (text.length + 1) pos text

/-- The token sequence of a document. -/
def tokens (filename : List UInt8) (s : List UInt8) : List Token := lex ⟨filename, 1, 0⟩ s

/-! ## The sequence unfolds one token at a time -/

namespace LexingLemmas

/-- A byte that `skipBlank` skips, with the flag and the position before and
after it. -/
inductive Blank (pos : DocumentPosition) : Bool → UInt8 → Bool → DocumentPosition → Prop
  | lf {comment : Bool} : Blank pos comment lineFeed false pos.nextLine
  | cr {comment : Bool} : Blank pos comment carriageReturn false pos
  | inside {c : UInt8} (hlf : c ≠ lineFeed) (hcr : c ≠ carriageReturn) (hnul : c ≠ nul) :
    Blank pos true c true pos.nextColumn
  | space {c : UInt8} (hc : c = spaceByte ∨ c = tab) : Blank pos false c false pos.nextColumn
  | mark : Blank pos false commentMark true pos.nextColumn

/-- `skipBlank` byte by byte, up to the first byte that it does not skip. -/
inductive Blanks : Bool → DocumentPosition → List UInt8 → DocumentPosition × Nat → Prop
  | stop {comment : Bool} {pos : DocumentPosition} {text : List UInt8}
    (hend : ∀ c ∈ text.head?, isBlank c = false ∧ (comment = true → c = nul)) :
    Blanks comment pos text (pos, 0)
  | blank {comment comment' : Bool} {pos pos' : DocumentPosition} {c : UInt8} {cs : List UInt8}
    {r : DocumentPosition × Nat} (hc : Blank pos comment c comment' pos')
    (h : Blanks comment' pos' cs r) : Blanks comment pos (c :: cs) (r.1, r.2 + 1)

theorem skipBlank_blanks (comment : Bool) (pos : DocumentPosition) (text : List UInt8) :
    Blanks comment pos text (skipBlank comment pos text) := by
  induction text generalizing comment pos with
  | nil => exact .stop nofun
  | cons c cs ih =>
    -- In a comment only a NUL byte gets past the third branch.
    have houtside : ∀ {d : UInt8}, ¬(comment = true ∧ d ≠ nul) → d ≠ nul → comment = false := by
      intro d hcomment hd
      exact Bool.eq_false_iff.mpr fun h => hcomment ⟨h, hd⟩
    unfold skipBlank
    split
    · next hc =>
      subst hc
      exact .blank .lf (ih _ _)
    split
    · next hc =>
      subst hc
      exact .blank .cr (ih _ _)
    split
    · next hlf hcr hcomment =>
      obtain ⟨rfl, hnul⟩ := hcomment
      exact .blank (.inside hlf hcr hnul) (ih _ _)
    split
    · next hcomment hc =>
      have hnul : c ≠ nul := by rcases hc with rfl | rfl <;> decide
      rw [houtside hcomment hnul]
      exact .blank (.space hc) (ih _ _)
    split
    · next hcomment _ hc =>
      subst hc
      rw [houtside hcomment (by decide)]
      exact .blank .mark (ih _ _)
    · next hlf hcr hcomment hsp hcm =>
      refine .stop fun d hd => ?_
      obtain rfl := Option.some.inj hd
      refine ⟨by simp [isBlank, hlf, hcr, hcm, not_or.mp hsp], fun h => ?_⟩
      by_contra hnul
      exact hcomment ⟨h, hnul⟩

theorem skipBlank_le (comment : Bool) (pos : DocumentPosition) (text : List UInt8) :
    (skipBlank comment pos text).2 ≤ text.length := by
  have h := skipBlank_blanks comment pos text
  generalize skipBlank comment pos text = r at h
  induction h with
  | stop _ => exact Nat.zero_le _
  | blank _ _ ih => exact Nat.succ_le_succ ih

theorem stringRest_le {delim : UInt8} {escaped : Bool} {text value : List UInt8} {n : Nat}
    (h : stringRest delim escaped text = some (value, n)) : n ≤ text.length := by
  induction text generalizing escaped value n with
  | nil => cases h
  | cons c cs ih =>
    have hmap : ∀ {b : Bool} {f : AstString → AstString},
        (stringRest delim b cs).map (fun (v, k) => (f v, k + 1)) = some (value, n) →
        n ≤ (c :: cs).length := by
      intro b f hf
      obtain ⟨⟨v, k⟩, hrest, hvk⟩ := Option.map_eq_some_iff.mp hf
      cases hvk
      exact Nat.succ_le_succ (ih hrest)
    cases escaped with
    | true => exact hmap h
    | false =>
      unfold stringRest at h
      split at h
      · cases h
        simp
      split at h
      · exact hmap (f := id) h
      · exact hmap h

theorem lexeme_le (text : List UInt8) : (lexeme text).2 ≤ text.length := by
  cases text with
  | nil => exact Nat.le_refl 0
  | cons c cs =>
    have htake : ∀ p : UInt8 → Bool, (cs.takeWhile p).length ≤ cs.length :=
      fun p => (List.takeWhile_prefix p).length_le
    simp only [lexeme]
    split
    · exact Nat.zero_le _
    split
    · split
      · exact Nat.zero_le _
      · exact Nat.succ_le_succ (htake isDigit)
    split
    · exact Nat.succ_le_succ (Nat.zero_le _)
    split
    · split
      · next h => exact Nat.succ_le_succ (stringRest_le h)
      · exact Nat.zero_le _
    split
    · exact Nat.succ_le_succ (htake isWordByte)
    · exact Nat.zero_le _

/-- The number of tokens asked for does not matter once it exceeds the number
of bytes. -/
theorem lexUpTo_congr {n m : Nat} (pos : DocumentPosition) (text : List UInt8)
    (hn : text.length < n) (hm : text.length < m) : lexUpTo n pos text = lexUpTo m pos text := by
  induction n generalizing m pos text with
  | zero => exact absurd hn (Nat.not_lt_zero _)
  | succ n ih =>
    cases m with
    | zero => exact absurd hm (Nat.not_lt_zero _)
    | succ m =>
      unfold lexUpTo
      dsimp only
      split
      · rfl
      · next hlen =>
        have hle := skipBlank_le false pos text
        have hle' := lexeme_le (text.drop (skipBlank false pos text).2)
        rw [List.length_drop] at hle'
        have hdrop : ∀ k, text.length < k + 1 → (text.drop ((skipBlank false pos text).2 +
            (lexeme (text.drop (skipBlank false pos text).2)).2)).length < k := by
          intro k hk
          rw [List.length_drop]
          omega
        rw [ih _ _ (hdrop n hn) (hdrop m hm)]

end LexingLemmas

open LexingLemmas

theorem lex_eq (pos : DocumentPosition) (text : List UInt8) :
    lex pos text =
      let start := (skipBlank false pos text).1
      let rest := text.drop (skipBlank false pos text).2
      let token : Token :=
        ⟨(lexeme rest).1, start, start.over (rest.take (lexeme rest).2)⟩
      if (lexeme rest).2 = 0 then [token]
      else token :: lex token.stop (rest.drop (lexeme rest).2) := by
  unfold lex
  rw [lexUpTo]
  dsimp only
  split
  · rfl
  · next hlen =>
    rw [List.drop_drop, lexUpTo_congr _ _ _ (Nat.lt_succ_self _)]
    have hle := skipBlank_le false pos text
    have hle' := lexeme_le (text.drop (skipBlank false pos text).2)
    rw [List.length_drop] at hle' ⊢
    omega

end Ian.Happy
