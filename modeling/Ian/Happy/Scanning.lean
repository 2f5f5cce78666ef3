import Ian.Happy.Buffer
import Ian.Happy.Lexing

/-!
# The lexical functions compute the reference tokens

Over a stream in memory, `peek_symbol` classifies the token that `lex` finds at
the cursor, and the consuming functions take exactly that token. This is stated
as a simulation: `tokenLexer` walks the reference token sequence, and
`scanner_token_sim` relates the parser's lexical functions to it. Together with
`buffer_memory_sim` this reduces every question about the grammar functions to
token sequences.

The one way to hang is `parse_string` on a literal that is never closed.
-/

namespace Ian.Happy

open Ian.Lib Run

/-! ## The lexer that walks a token sequence -/

/-- A place in a token sequence. -/
structure TokenState where
  pos : DocumentPosition
  toks : List Token

/-- The next lexeme; past the last token it is the end of the document. -/
def headLexeme : List Token → Lexeme
  | [] => .eof
  | tok :: _ => tok.lexeme

/-- Where the next token starts. -/
def startOf : List Token → DocumentPosition
  | [] => ⟨[], 1, 0⟩
  | tok :: _ => tok.start

def TokenState.head (t : TokenState) : Lexeme := headLexeme t.toks

def TokenState.peek (t : TokenState) : TokenState := { t with pos := startOf t.toks }

def TokenState.next (t : TokenState) : TokenState :=
  match t.toks with
  | [] => t
  | tok :: toks => { pos := tok.stop, toks }

def tokenPeek : Run TokenState Exception Symbol := ⟨fun t => (.ok t.head.symbol, t.peek)⟩

/-- Take the next token as `take` reads it. A string literal that is never
closed is never read to its end; any other token without a value is not the
expected one. -/
def tokenTake {α : Type} (expected : Symbol) (take : Lexeme → Option α) :
    Run TokenState Exception α := do
  let _ ← tokenPeek
  ⟨fun t =>
    match take t.head with
    | some a => (.ok a, t.next)
    | none =>
      if expected = .string ∧ t.head = .openString then (.outOfFuel, t)
      else (unexpected tokenPeek TokenState.pos expected).run t⟩

theorem tokenTake_some {α : Type} {expected : Symbol} {take : Lexeme → Option α} {t : TokenState}
    {a : α} (h : take t.head = some a) :
    (tokenTake expected take).run t = (.ok a, t.peek.next) := by
  rw [tokenTake, bind_ok (rfl : tokenPeek.run t = (.ok t.head.symbol, t.peek))]
  have h' : take t.peek.head = some a := h
  simp only [h']

theorem tokenTake_open {α : Type} {take : Lexeme → Option α} {t : TokenState}
    (h : take t.head = none) (hopen : t.head = .openString) :
    (tokenTake .string take).run t = (.outOfFuel, t.peek) := by
  rw [tokenTake, bind_ok (rfl : tokenPeek.run t = (.ok t.head.symbol, t.peek))]
  have h' : take t.peek.head = none := h
  simp only [h']
  rw [if_pos ⟨trivial, hopen⟩]

theorem tokenTake_unexpected {α : Type} {expected : Symbol} {take : Lexeme → Option α}
    {t : TokenState} (h : take t.head = none)
    (hopen : ¬(expected = .string ∧ t.head = .openString)) :
    (tokenTake expected take).run t =
      (unexpected tokenPeek TokenState.pos expected).run t.peek := by
  rw [tokenTake, bind_ok (rfl : tokenPeek.run t = (.ok t.head.symbol, t.peek))]
  have h' : take t.peek.head = none := h
  simp only [h']
  exact if_neg hopen

/-- `unexpected` throws a `ParseException` at the next token. -/
theorem unexpected_run (t : TokenState) (expected : Symbol) :
    ∃ message, ∀ α : Type,
      (unexpected tokenPeek TokenState.pos expected : Run TokenState Exception α).run t =
        (.throw (.parse (startOf t.toks) message), t.peek) :=
  ⟨_, fun _ => rfl⟩

theorem unexpectedIn_run (t : TokenState) (context : String) :
    ∃ message, ∀ α : Type,
      (unexpectedIn tokenPeek TokenState.pos context : Run TokenState Exception α).run t =
        (.throw (.parse (startOf t.toks) message), t.peek) :=
  ⟨_, fun _ => rfl⟩

def Lexeme.takeFixed (symbol : Symbol) (lx : Lexeme) : Option Unit :=
  if lx = .fixed symbol then some () else none

def Lexeme.takeIdentifier : Lexeme → Option AstIdentifier
  | .identifier name => some name
  | _ => none

def Lexeme.takeString : Lexeme → Option AstString
  | .string value => some value
  | _ => none

def Lexeme.takeInteger : Lexeme → Option Int
  | .integer value => some value
  | _ => none

/-- The token functions over a token sequence. -/
def tokenLexer : Lexer TokenState where
  peekSymbol := tokenPeek
  parseSymbol symbol :=
    if (symbolLength symbol).isSome then
      tokenTake symbol (Lexeme.takeFixed symbol)
    else do
      expect tokenPeek TokenState.pos symbol
      raise (.logicError "Invalid parse_symbol usage")
  parseIdentifier := tokenTake .identifier Lexeme.takeIdentifier
  parseString := tokenTake .string Lexeme.takeString
  parseInteger := tokenTake .integer Lexeme.takeInteger
  currentPosition := TokenState.pos

/-- The parser over a document in memory stands at the place `t` of its token
sequence: the rest of the text lexes to the rest of the tokens, and the cached
symbol, if there is one, is that of the token under the cursor. -/
structure TokenRel (s : List UInt8) (p : Parser Memory) (t : TokenState) : Prop where
  text : p.source.text = s
  inside : p.source.cursor ≤ s.length
  pos : t.pos = p.pos
  toks : t.toks = lex p.pos p.source.unread
  cached : p.nextSymbol = .invalid ∨
    (skipBlank false p.pos p.source.unread).2 = 0 ∧
      p.nextSymbol = (lexeme p.source.unread).1.symbol

namespace ScanningLemmas

open LexingLemmas

/-! ## Scans that only look -/

theorem peekAt_run (p : Parser Memory) (k : Nat) :
    (peekAt memorySource k).run p = (.ok (p.source.unread.getD k nul), p) := by
  show (Outcome.ok (p.source.text.getD (p.source.cursor + k) nul), p) = _
  rw [Memory.unread, List.getD_eq_getElem?_getD, List.getD_eq_getElem?_getD, List.getElem?_drop]

theorem getD_of_drop_nil {text : List UInt8} {k : Nat} (h : text.drop k = []) :
    text.getD k nul = nul := by
  rw [List.getD_eq_getElem?_getD, ← List.head?_drop, h]
  rfl

theorem getD_of_drop_cons {text cs : List UInt8} {k : Nat} {c : UInt8} (h : text.drop k = c :: cs) :
    text.getD k nul = c ∧ text.drop (k + 1) = cs := by
  constructor
  · rw [List.getD_eq_getElem?_getD, ← List.head?_drop, h]
    rfl
  · rw [← List.tail_drop, h]
    rfl

/-- A loop that collects the bytes satisfying `f` from offset `off` on stops
after the whole run of them. -/
theorem collect_run {β : Type} (p : Parser Memory) (f : UInt8 → Bool) (hf : f nul = false)
    (finish : Nat → List UInt8 → β) (fuel off : Nat) (acc text : List UInt8)
    (hdrop : p.source.unread.drop off = text) (hfuel : text.length < fuel) :
    (loop (fun (b : Nat × List UInt8) => (do
        let c ← peekAt memorySource b.1
        if f c then pure (.again (b.1 + 1, b.2 ++ [c]))
        else pure (.done (finish b.1 b.2)) : ParserM Memory (Iter (Nat × List UInt8) β)))
      fuel (off, acc)).run p =
      (.ok (finish (off + (text.takeWhile f).length) (acc ++ text.takeWhile f)), p) := by
  induction fuel generalizing off acc text with
  | zero => exact absurd hfuel (Nat.not_lt_zero _)
  | succ fuel ih =>
    cases text with
    | nil =>
      refine loop_done ?_
      rw [bind_ok (peekAt_run p off), getD_of_drop_nil hdrop, hf]
      simp
    | cons c cs =>
      obtain ⟨hget, hnext⟩ := getD_of_drop_cons hdrop
      cases hc : f c with
      | true =>
        have hrec := ih (off + 1) (acc ++ [c]) cs hnext (Nat.lt_of_succ_lt_succ hfuel)
        refine (loop_again ?_).trans (hrec.trans ?_)
        · rw [bind_ok (peekAt_run p off), hget, hc]
          rfl
        · rw [List.takeWhile_cons_of_pos hc]
          simp [Nat.add_comm, Nat.add_left_comm]
      | false =>
        refine loop_done ?_
        rw [bind_ok (peekAt_run p off), hget, hc, List.takeWhile_cons_of_neg (by simp [hc])]
        simp

theorem scanWord_run {p : Parser Memory} {c : UInt8} {cs : List UInt8} {fuel : Nat}
    (h : p.source.unread = c :: cs) (hfuel : p.source.unread.length < fuel) :
    (scanWord memorySource fuel c).run p = (.ok (c :: cs.takeWhile isWordByte), p) := by
  have hdrop : p.source.unread.drop 1 = cs := by rw [h]; rfl
  refine (collect_run p isWordByte rfl (fun _ str => str) fuel 1 [c] cs hdrop ?_)
  rw [h] at hfuel
  exact Nat.lt_of_succ_lt hfuel

theorem scanNumber_loop (p : Parser Memory) (fuel off : Nat) (text : List UInt8)
    (hdrop : p.source.unread.drop off = text) (hfuel : text.length < fuel) :
    (loop (scanNumberStep memorySource) fuel off).run p =
      (.ok (if (text.drop (text.takeWhile isDigit).length).head? = some namespaceSepMark then
        .number else .integer), p) := by
  induction fuel generalizing off text with
  | zero => exact absurd hfuel (Nat.not_lt_zero _)
  | succ fuel ih =>
    have hstep : ∀ c, p.source.unread.getD off nul = c → (scanNumberStep memorySource off).run p =
        (.ok (if isDigit c || c == namespaceSepMark then
          if c == namespaceSepMark then .done .number else .again (off + 1)
          else .done .integer), p) := by
      rintro c rfl
      rw [scanNumberStep, bind_ok (peekAt_run p off)]
      split_ifs <;> rfl
    cases text with
    | nil =>
      refine loop_done ?_
      rw [hstep nul (getD_of_drop_nil hdrop)]
      rfl
    | cons c cs =>
      obtain ⟨hget, hnext⟩ := getD_of_drop_cons hdrop
      cases hc : isDigit c with
      | true =>
        have hdot : c ≠ namespaceSepMark := by
          rintro rfl
          exact absurd hc (by decide)
        have hrec := ih (off + 1) cs hnext (Nat.lt_of_succ_lt_succ hfuel)
        refine (loop_again ?_).trans (hrec.trans ?_)
        · rw [hstep c hget, hc]
          simp [hdot]
        · rw [List.takeWhile_cons_of_pos hc]
          rfl
      | false =>
        refine loop_done ?_
        rw [hstep c hget, hc, List.takeWhile_cons_of_neg (by simp [hc])]
        by_cases hdot : c = namespaceSepMark <;> simp [hdot]

theorem parseStringStep_run (p : Parser Memory) (delim : UInt8) (len : Nat) (acc : AstString)
    {c : UInt8}
    (h : p.source.unread.getD len nul = c) :
    (parseStringStep memorySource delim (len, acc)).run p =
      (.ok (if c = delim then .done (len + 1, acc)
        else if c = backslash then
          .again (len + 2, acc ++ [unescape (p.source.unread.getD (len + 1) nul)])
        else .again (len + 1, acc ++ [c])), p) := by
  rw [parseStringStep, bind_ok (peekAt_run p len), h]
  split_ifs with hd hb <;> simp_all [bind_ok (peekAt_run p (len + 1))]

/-- The string scan reads what `stringRest` reads, if the literal is closed. -/
theorem string_loop {p : Parser Memory} {delim : UInt8} (fuel len : Nat) (acc text : List UInt8)
    {value : AstString} {n : Nat} (hdrop : p.source.unread.drop len = text)
    (hrest : stringRest delim false text = some (value, n)) (hfuel : text.length < fuel) :
    (loop (parseStringStep memorySource delim) fuel (len, acc)).run p =
      (.ok (len + n, acc ++ value), p) := by
  induction fuel generalizing len acc text value n with
  | zero => exact absurd hfuel (Nat.not_lt_zero _)
  | succ fuel ih =>
    cases text with
    | nil => cases hrest
    | cons c cs =>
      obtain ⟨hget, hnext⟩ := getD_of_drop_cons hdrop
      have hstep := parseStringStep_run p delim len acc hget
      unfold stringRest at hrest
      split at hrest
      · next hc =>
        cases hrest
        rw [if_pos hc] at hstep
        rw [loop_done hstep, List.append_nil]
      · next hc =>
        rw [if_neg hc] at hstep
        split at hrest
        · next hb =>
          rw [if_pos hb] at hstep
          obtain ⟨⟨value', n'⟩, hrest', hvn⟩ := Option.map_eq_some_iff.mp hrest
          cases hvn
          cases cs with
          | nil => cases hrest'
          | cons d ds =>
            obtain ⟨hget', hnext'⟩ := getD_of_drop_cons hnext
            obtain ⟨⟨value'', n''⟩, hrest'', hvn'⟩ := Option.map_eq_some_iff.mp hrest'
            cases hvn'
            simp only [List.length_cons] at hfuel
            rw [loop_again hstep, hget', ih (len + 2) _ ds hnext' hrest'' (by omega)]
            simp [Nat.add_comm, Nat.add_left_comm]
        · next hb =>
          rw [if_neg hb] at hstep
          obtain ⟨⟨value', n'⟩, hrest', hvn⟩ := Option.map_eq_some_iff.mp hrest
          cases hvn
          rw [loop_again hstep, ih (len + 1) _ cs hnext hrest' (Nat.lt_of_succ_lt_succ hfuel)]
          simp [Nat.add_comm, Nat.add_left_comm]

/-- On a literal that is never closed the string scan does not end: past the
end of the text it reads NUL bytes for ever. -/
theorem string_loop_open {p : Parser Memory} {delim : UInt8} (hdelim : delim ≠ nul)
    (fuel len : Nat) (acc text : List UInt8) (hdrop : p.source.unread.drop len = text)
    (hrest : stringRest delim false text = none) :
    (loop (parseStringStep memorySource delim) fuel (len, acc)).run p = (.outOfFuel, p) := by
  induction fuel generalizing len acc text with
  | zero => rfl
  | succ fuel ih =>
    cases text with
    | nil =>
      have hstep := parseStringStep_run p delim len acc (getD_of_drop_nil hdrop)
      rw [if_neg (Ne.symm hdelim), if_neg (by decide)] at hstep
      rw [loop_again hstep]
      refine ih (len + 1) _ [] ?_ rfl
      rw [← List.drop_drop, hdrop, List.drop_nil]
    | cons c cs =>
      obtain ⟨hget, hnext⟩ := getD_of_drop_cons hdrop
      have hstep := parseStringStep_run p delim len acc hget
      unfold stringRest at hrest
      split at hrest
      · cases hrest
      · next hc =>
        rw [if_neg hc] at hstep
        split at hrest
        · next hb =>
          rw [if_pos hb] at hstep
          rw [loop_again hstep]
          have hrest' := Option.map_eq_none_iff.mp hrest
          cases cs with
          | nil =>
            refine ih (len + 2) _ [] ?_ rfl
            rw [← List.drop_drop, hdrop]
            rfl
          | cons d ds =>
            obtain ⟨_, hnext'⟩ := getD_of_drop_cons hnext
            exact ih (len + 2) _ ds hnext' (Option.map_eq_none_iff.mp hrest')
        · next hb =>
          rw [if_neg hb] at hstep
          rw [loop_again hstep]
          exact ih (len + 1) _ cs hnext (Option.map_eq_none_iff.mp hrest)

theorem integer_loop {p : Parser Memory} (fuel len : Nat) (acc : Int) (text : List UInt8)
    (hdrop : p.source.unread.drop len = text) (hfuel : text.length < fuel) :
    (loop (parseIntegerStep memorySource) fuel (len, acc)).run p =
      (.ok (len + (text.takeWhile isDigit).length,
        (text.takeWhile isDigit).foldl
          (fun n d => wrapInt64 (n * 10 + (d.toNat - 0x30 : Nat))) acc), p) := by
  induction fuel generalizing len acc text with
  | zero => exact absurd hfuel (Nat.not_lt_zero _)
  | succ fuel ih =>
    have hstep : ∀ c, p.source.unread.getD len nul = c →
        (parseIntegerStep memorySource (len, acc)).run p =
          (.ok (if !isDigit c then .done (len, acc)
            else .again (len + 1, wrapInt64 (acc * 10 + (c.toNat - 0x30 : Nat)))), p) := by
      rintro c rfl
      rw [parseIntegerStep, bind_ok (peekAt_run p len)]
      split_ifs <;> rfl
    cases text with
    | nil => exact loop_done (hstep nul (getD_of_drop_nil hdrop))
    | cons c cs =>
      obtain ⟨hget, hnext⟩ := getD_of_drop_cons hdrop
      have hstep' := hstep c hget
      cases hc : isDigit c with
      | true =>
        rw [hc] at hstep'
        rw [loop_again hstep', ih (len + 1) _ cs hnext (Nat.lt_of_succ_lt_succ hfuel),
          List.takeWhile_cons_of_pos hc]
        simp [Nat.add_comm, Nat.add_left_comm]
      | false =>
        rw [hc] at hstep'
        rw [loop_done hstep', List.takeWhile_cons_of_neg (by simp [hc])]
        rfl

theorem wrapInt64_step (n : Int) (d : Nat) :
    wrapInt64 (wrapInt64 n * 10 + d) = wrapInt64 (n * 10 + d) := by
  unfold wrapInt64
  rw [← Int.bmod_add_bmod, Int.bmod_mul_bmod, Int.bmod_add_bmod]

/-- The accumulator wraps at every step, which is wrapping once at the end. -/
theorem foldl_wrapInt64 (digits : List UInt8) (n : Nat) :
    digits.foldl (fun n d => wrapInt64 (n * 10 + (d.toNat - 0x30 : Nat))) (wrapInt64 n) =
      wrapInt64 (digits.foldl (fun n d => n * 10 + (d.toNat - 0x30)) n : Nat) := by
  induction digits generalizing n with
  | nil => rw [List.foldl_nil, List.foldl_nil]
  | cons d ds ih =>
    have hstep := ih (n * 10 + (d.toNat - 0x30))
    rw [Int.natCast_add, Int.natCast_mul, Int.cast_ofNat_Int, ← wrapInt64_step] at hstep
    rw [List.foldl_cons, List.foldl_cons]
    exact hstep

theorem wrapInt64_neg (n : Int) : wrapInt64 (-(wrapInt64 n)) = wrapInt64 (-n) :=
  Int.bmod_neg_bmod

/-! ## Moving the cursor -/

/-- The parser with its cursor `n` bytes further on, at position `pos`. -/
def moved (p : Parser Memory) (pos : DocumentPosition) (n : Nat) : Parser Memory :=
  { p with pos, source := { p.source with cursor := p.source.cursor + n } }

@[simp] theorem moved_unread (p : Parser Memory) (pos : DocumentPosition) (n : Nat) :
    (moved p pos n).source.unread = p.source.unread.drop n := by
  simp [moved, Memory.unread, List.drop_drop]

@[simp] theorem moved_pos (p : Parser Memory) (pos : DocumentPosition) (n : Nat) :
    (moved p pos n).pos = pos := rfl

@[simp] theorem moved_moved (p : Parser Memory) (pos pos' : DocumentPosition) (n m : Nat) :
    moved (moved p pos n) pos' m = moved p pos' (n + m) := by
  simp [moved, Nat.add_assoc]

theorem modifyPos_run (p : Parser Memory) (f : DocumentPosition → DocumentPosition) :
    (modifyPos f).run p = (.ok (), { p with pos := f p.pos }) := rfl

theorem skip_run (p : Parser Memory) (n : Nat) :
    (skip memorySource n).run p = (.ok (), moved p p.pos n) := rfl

theorem trim_run (p : Parser Memory) : (trimOpportunity memorySource).run p = (.ok (), p) := rfl

/-- A byte that belongs to a comment. -/
def inComment (c : UInt8) : Bool := c != nul && c != lineFeed && c != carriageReturn

/-- `k` columns further on. -/
def columns (pos : DocumentPosition) (k : Nat) : DocumentPosition :=
  { pos with column := pos.column + k }

theorem columns_nextColumn (pos : DocumentPosition) (k : Nat) :
    columns pos.nextColumn k = columns pos (k + 1) := by
  simp [columns, DocumentPosition.nextColumn, Nat.add_comm, Nat.add_left_comm]

theorem skipBlank_comment (pos : DocumentPosition) (text : List UInt8) :
    skipBlank true pos text =
      let k := (text.takeWhile inComment).length
      ((skipBlank false (columns pos k) (text.drop k)).1,
        k + (skipBlank false (columns pos k) (text.drop k)).2) := by
  induction text generalizing pos with
  | nil => rfl
  | cons c cs ih =>
    cases hc : inComment c with
    | true =>
      rw [List.takeWhile_cons_of_pos hc]
      simp only [inComment, Bool.and_eq_true, bne_iff_ne, ne_eq] at hc
      obtain ⟨⟨hnul, hlf⟩, hcr⟩ := hc
      rw [skipBlank, if_neg hlf, if_neg hcr, if_pos ⟨rfl, hnul⟩, ih]
      simp only [columns_nextColumn, List.length_cons, List.drop_succ_cons]
      rw [Nat.add_right_comm]
    | false =>
      rw [List.takeWhile_cons_of_neg (by simp [hc])]
      simp only [inComment, Bool.and_eq_false_iff, bne_eq_false_iff_eq] at hc
      have hpos : columns pos 0 = pos := rfl
      simp only [List.length_nil, List.drop_zero, Nat.zero_add, hpos]
      rcases hc with (rfl | rfl) | rfl <;> rfl

theorem skipCommentStep_run {p : Parser Memory} {c : UInt8} {cs : List UInt8}
    (h : p.source.unread = c :: cs) :
    (skipCommentStep memorySource ()).run p =
      (.ok (if inComment (cs.getD 0 nul) then .again () else .done (cs.getD 0 nul)),
        moved p p.pos.nextColumn 1) := by
  have hpeek := peekAt_run (moved p p.pos.nextColumn 1) 0
  rw [moved_unread, h, List.drop_one, List.tail_cons] at hpeek
  rw [skipCommentStep, bind_ok (modifyPos_run p _), bind_ok (skip_run _ 1)]
  refine (bind_ok hpeek).trans ?_
  unfold inComment
  split_ifs <;> rfl

/-- A comment is skipped up to its end. -/
theorem skipComment_loop (fuel : Nat) (p : Parser Memory) (c : UInt8) (cs : List UInt8)
    (h : p.source.unread = c :: cs) (hfuel : cs.length < fuel) :
    (skipComment memorySource fuel).run p =
      (.ok ((cs.drop (cs.takeWhile inComment).length).getD 0 nul),
        moved p (columns p.pos ((cs.takeWhile inComment).length + 1))
          ((cs.takeWhile inComment).length + 1)) := by
  induction fuel generalizing p c cs with
  | zero => exact absurd hfuel (Nat.not_lt_zero _)
  | succ fuel ih =>
    have hstep := skipCommentStep_run h
    cases cs with
    | nil => exact loop_done hstep
    | cons d ds =>
      cases hd : inComment d with
      | true =>
        rw [show (d :: ds).getD 0 nul = d from rfl, hd] at hstep
        have hunread : (moved p p.pos.nextColumn 1).source.unread = d :: ds := by
          rw [moved_unread, h]
          rfl
        refine (loop_again hstep).trans ?_
        refine (ih _ d ds hunread (Nat.lt_of_succ_lt_succ hfuel)).trans ?_
        rw [List.takeWhile_cons_of_pos hd, moved_pos, moved_moved, columns_nextColumn]
        simp [Nat.add_comm, Nat.add_left_comm]
      | false =>
        rw [show (d :: ds).getD 0 nul = d from rfl, hd] at hstep
        rw [List.takeWhile_cons_of_neg (by simp [hd])]
        exact loop_done hstep

theorem isBlank_false {c : UInt8} (h : isBlank c = false) :
    c ≠ lineFeed ∧ c ≠ carriageReturn ∧ ¬(c = spaceByte ∨ c = tab) ∧ c ≠ commentMark := by
  simp only [isBlank, Bool.or_eq_false_iff, beq_eq_false_iff_ne, ne_eq] at h
  obtain ⟨⟨⟨⟨hsp, htab⟩, hlf⟩, hcr⟩, hcm⟩ := h
  exact ⟨hlf, hcr, by tauto, hcm⟩

theorem skipBlank_stop {c : UInt8} {cs : List UInt8} (pos : DocumentPosition)
    (h : isBlank c = false) : skipBlank false pos (c :: cs) = (pos, 0) := by
  obtain ⟨hlf, hcr, hsp, hcm⟩ := isBlank_false h
  simp [skipBlank, hlf, hcr, hsp, hcm]

/-- A blank byte other than `#` moves the cursor by one. -/
theorem skipWhitespaceStep_blank {p : Parser Memory} {c : UInt8} {cs : List UInt8} (fuel : Nat)
    (h : p.source.unread = c :: cs) (hb : isBlank c = true) (hcm : c ≠ commentMark) :
    ∃ pos', (skipWhitespaceStep memorySource fuel c).run p =
        (.ok (.again (cs.getD 0 nul)), moved p pos' 1) ∧
      skipBlank false p.pos (c :: cs) =
        ((skipBlank false pos' cs).1, (skipBlank false pos' cs).2 + 1) := by
  refine ⟨(fun pos => if c == lineFeed then pos.nextLine else pos)
    (if c == spaceByte || c == tab then p.pos.nextColumn else p.pos), ?_, ?_⟩
  · have hpeek := peekAt_run (moved p ((fun pos => if c == lineFeed then pos.nextLine else pos)
      (if c == spaceByte || c == tab then p.pos.nextColumn else p.pos)) 1) 0
    rw [moved_unread, h, List.drop_one, List.tail_cons] at hpeek
    rw [skipWhitespaceStep, if_pos hb, bind_ok (modifyPos_run p _), bind_ok (modifyPos_run _ _),
      if_neg (by simpa using hcm), bind_ok (skip_run _ 1)]
    exact bind_ok hpeek
  · have hcases : c = spaceByte ∨ c = tab ∨ c = lineFeed ∨ c = carriageReturn := by
      simp only [isBlank, Bool.or_eq_true, beq_iff_eq] at hb
      tauto
    rcases hcases with rfl | rfl | rfl | rfl <;> rfl

theorem skipWhitespaceStep_comment {p : Parser Memory} {cs : List UInt8} {fuel : Nat}
    (h : p.source.unread = commentMark :: cs) (hfuel : cs.length < fuel) :
    (skipWhitespaceStep memorySource fuel commentMark).run p =
      (.ok (.again ((cs.drop (cs.takeWhile inComment).length).getD 0 nul)),
        moved p (columns p.pos ((cs.takeWhile inComment).length + 1))
          ((cs.takeWhile inComment).length + 1)) := by
  rw [skipWhitespaceStep, if_pos (by decide), bind_ok (modifyPos_run p _),
    bind_ok (modifyPos_run _ _), if_pos (by decide)]
  exact bind_ok (skipComment_loop fuel p commentMark cs h hfuel)

/-- The loop of `skip_whitespace` stops where the blanks end. The induction is
on the fuel; the text left shrinks by at least one byte per iteration. -/
theorem skipWhitespace_loop (fuel : Nat) {whole : Nat} (p : Parser Memory)
    (hwhole : p.source.unread.length ≤ whole) (hfuel : p.source.unread.length < fuel) :
    (loop (skipWhitespaceStep memorySource (whole + 1)) fuel (p.source.unread.getD 0 nul)).run p =
      (.ok (), moved p (skipBlank false p.pos p.source.unread).1
        (skipBlank false p.pos p.source.unread).2) := by
  induction fuel generalizing p with
  | zero => exact absurd hfuel (Nat.not_lt_zero _)
  | succ fuel ih =>
    cases h : p.source.unread with
    | nil => exact loop_done rfl
    | cons c cs =>
      rw [h, List.length_cons] at hfuel hwhole
      show (loop _ (fuel + 1) c).run p = _
      cases hb : isBlank c with
      | false =>
        rw [skipBlank_stop p.pos hb]
        refine loop_done ?_
        rw [skipWhitespaceStep, hb]
        rfl
      | true =>
        by_cases hcm : c = commentMark
        · subst hcm
          have hunread : (moved p (columns p.pos ((cs.takeWhile inComment).length + 1))
              ((cs.takeWhile inComment).length + 1)).source.unread =
                cs.drop (cs.takeWhile inComment).length := by
            rw [moved_unread, h, List.drop_succ_cons]
          have hdrop := List.length_drop (i := (cs.takeWhile inComment).length) (l := cs)
          rw [loop_again (skipWhitespaceStep_comment h (by omega))]
          have hrec := ih (moved p (columns p.pos ((cs.takeWhile inComment).length + 1))
            ((cs.takeWhile inComment).length + 1)) (by rw [hunread]; omega) (by rw [hunread]; omega)
          rw [hunread] at hrec
          rw [hrec, moved_pos, moved_moved]
          have hskip : skipBlank false p.pos (commentMark :: cs) =
              ((skipBlank true p.pos.nextColumn cs).1,
                (skipBlank true p.pos.nextColumn cs).2 + 1) := rfl
          rw [hskip, skipBlank_comment]
          simp only [columns_nextColumn]
          rw [Nat.add_right_comm]
        · obtain ⟨pos', hstep, hskip⟩ := skipWhitespaceStep_blank (whole + 1) h hb hcm
          have hunread : (moved p pos' 1).source.unread = cs := by
            rw [moved_unread, h]
            rfl
          rw [loop_again hstep]
          have hrec := ih (moved p pos' 1) (by rw [hunread]; omega) (by rw [hunread]; omega)
          rw [hunread] at hrec
          rw [hrec, hskip, moved_pos, moved_moved, Nat.add_comm 1]

theorem skipWhitespace_run {p : Parser Memory} {fuel : Nat}
    (hfuel : p.source.unread.length < fuel) :
    (skipWhitespace memorySource fuel).run p =
      (.ok (), moved p (skipBlank false p.pos p.source.unread).1
        (skipBlank false p.pos p.source.unread).2) := by
  obtain ⟨whole, rfl⟩ : ∃ whole, fuel = whole + 1 := ⟨fuel - 1, by omega⟩
  rw [skipWhitespace, bind_ok (peekAt_run p 0),
    bind_ok (skipWhitespace_loop (whole + 1) p (Nat.le_of_lt_succ hfuel) hfuel)]
  rfl

theorem advancePos_run (p : Parser Memory) (n i : Nat)
    (h : i + n ≤ p.source.unread.length) :
    (advancePos memorySource n i).run p =
      (.ok (), { p with pos := p.pos.over ((p.source.unread.drop i).take n) }) := by
  induction n generalizing p i with
  | zero => rfl
  | succ n ih =>
    obtain ⟨c, cs, hdrop⟩ : ∃ c cs, p.source.unread.drop i = c :: cs := by
      cases hd : p.source.unread.drop i with
      | nil =>
        have := congrArg List.length hd
        simp only [List.length_drop, List.length_nil] at this
        omega
      | cons c cs => exact ⟨c, cs, rfl⟩
    obtain ⟨hget, hnext⟩ := getD_of_drop_cons hdrop
    rw [advancePos, bind_ok (peekAt_run p i), bind_ok (modifyPos_run p _)]
    refine (ih { p with pos := p.pos.after (p.source.unread.getD i nul) } (i + 1) ?_).trans ?_
    · show i + 1 + n ≤ p.source.unread.length
      omega
    · show (Outcome.ok (), { p with
        pos := DocumentPosition.over _ ((p.source.unread.drop (i + 1)).take n) }) = _
      rw [hget, hnext, hdrop]
      rfl

/-- `advance` over a token that lies inside the text. -/
theorem advance_run (p : Parser Memory) (n : Nat) (h : n ≤ p.source.unread.length) :
    (advance memorySource n).run p =
      (.ok (), { moved p (p.pos.over (p.source.unread.take n)) n with
        nextSymbol := .invalid }) := by
  rw [advance, bind_ok (advancePos_run p n 0 (by omega))]
  rfl

/-! ## Classification -/

/-- The branches of `lexeme`, with what each one knows about the text. -/
inductive Scanned : List UInt8 → Lexeme → Nat → Prop
  | stop {text : List UInt8} : text.getD 0 nul = nul → Scanned text .eof 0
  | number {c : UInt8} {cs : List UInt8} : c ≠ nul → isDigit c ∨ c = minusSign ∨ c = plusSign →
      (cs.drop (cs.takeWhile isDigit).length).head? = some namespaceSepMark →
      Scanned (c :: cs) .number 0
  | integer {c : UInt8} {cs : List UInt8} : c ≠ nul → isDigit c ∨ c = minusSign ∨ c = plusSign →
      (cs.drop (cs.takeWhile isDigit).length).head? ≠ some namespaceSepMark →
      Scanned (c :: cs) (.integer (wrapInt64 (integerValue c (cs.takeWhile isDigit))))
        ((cs.takeWhile isDigit).length + 1)
  | sign {c : UInt8} {cs : List UInt8} {symbol : Symbol} : c ≠ nul →
      ¬(isDigit c ∨ c = minusSign ∨ c = plusSign) → signSymbol c = some symbol →
      Scanned (c :: cs) (.fixed symbol) 1
  | string {c : UInt8} {cs : List UInt8} {value : AstString} {n : Nat} : c ≠ nul →
      ¬(isDigit c ∨ c = minusSign ∨ c = plusSign) → signSymbol c = none →
      c = singleQuote ∨ c = doubleQuote → stringRest c false cs = some (value, n) →
      Scanned (c :: cs) (.string value) (n + 1)
  | openString {c : UInt8} {cs : List UInt8} : c ≠ nul →
      ¬(isDigit c ∨ c = minusSign ∨ c = plusSign) → signSymbol c = none →
      c = singleQuote ∨ c = doubleQuote → stringRest c false cs = none →
      Scanned (c :: cs) .openString 0
  | word {c : UInt8} {cs : List UInt8} : c ≠ nul →
      ¬(isDigit c ∨ c = minusSign ∨ c = plusSign) → signSymbol c = none →
      ¬(c = singleQuote ∨ c = doubleQuote) → isLetter c →
      Scanned (c :: cs) (wordLexeme (c :: cs.takeWhile isWordByte))
        (c :: cs.takeWhile isWordByte).length
  | error {c : UInt8} {cs : List UInt8} : c ≠ nul →
      ¬(isDigit c ∨ c = minusSign ∨ c = plusSign) → signSymbol c = none →
      ¬(c = singleQuote ∨ c = doubleQuote) → ¬isLetter c → Scanned (c :: cs) .error 0

theorem lexeme_scanned (text : List UInt8) : Scanned text (lexeme text).1 (lexeme text).2 := by
  cases text with
  | nil => exact .stop rfl
  | cons c cs =>
    simp only [lexeme]
    by_cases hn : c = nul
    · rw [if_pos hn]
      exact .stop hn
    rw [if_neg hn]
    by_cases hd : isDigit c ∨ c = minusSign ∨ c = plusSign
    · rw [if_pos hd]
      split
      · next hdot => exact .number hn hd hdot
      · next hdot => exact .integer hn hd hdot
    rw [if_neg hd]
    cases hs : signSymbol c with
    | some symbol => exact .sign hn hd hs
    | none =>
      by_cases hq : c = singleQuote ∨ c = doubleQuote
      · simp only [if_pos hq]
        cases hv : stringRest c false cs with
        | some r => exact .string hn hd hs hq hv
        | none => exact .openString hn hd hs hq hv
      · simp only [if_neg hq]
        split
        · next hl => exact .word hn hd hs hq hl
        · next hl => exact .error hn hd hs hq hl

theorem wordLexeme_symbol (word : List UInt8) : (wordLexeme word).symbol = wordSymbol word := by
  unfold wordLexeme
  split
  · next h => exact h.symm
  · rfl

theorem signSymbol_length {c : UInt8} {symbol : Symbol} (h : signSymbol c = some symbol) :
    symbolLength symbol = some 1 := by
  unfold signSymbol at h
  split_ifs at h <;> cases h <;> rfl

theorem wordSymbol_length (word : List UInt8) :
    wordSymbol word = .identifier ∨ symbolLength (wordSymbol word) = some word.length := by
  unfold wordSymbol
  split_ifs with h1 h2 h3 h4 h5 h6
  · exact Or.inr (by rw [h1]; rfl)
  · exact Or.inr (by rw [h2]; rfl)
  · exact Or.inr (by rw [h3]; rfl)
  · exact Or.inr (by rw [h4]; rfl)
  · exact Or.inr (by rw [h5]; rfl)
  · exact Or.inr (by rw [h6]; rfl)
  · exact Or.inl rfl

/-- A sign is no symbol of variable length. -/
theorem signSymbol_ne {c : UInt8} {sign symbol : Symbol} (h : signSymbol c = some sign)
    (hlength : symbolLength symbol = none) : sign ≠ symbol := by
  rintro rfl
  exact nomatch (signSymbol_length h).symm.trans hlength

/-- A word is no symbol of variable length but an identifier. -/
theorem wordLexeme_ne (word : List UInt8) {symbol : Symbol} (hlength : symbolLength symbol = none)
    (hidentifier : symbol ≠ .identifier) : (wordLexeme word).symbol ≠ symbol := by
  rintro rfl
  rw [wordLexeme_symbol] at hlength hidentifier
  rcases wordSymbol_length word with hw | hw
  · exact hidentifier hw
  · exact nomatch hw.symm.trans hlength

theorem lexeme_symbol_ne_invalid (text : List UInt8) : (lexeme text).1.symbol ≠ .invalid := by
  have h := lexeme_scanned text
  generalize (lexeme text).1 = lx, (lexeme text).2 = n at h
  cases h with
  | sign _ _ hs => exact signSymbol_ne hs rfl
  | word _ _ _ _ _ => exact wordLexeme_ne _ rfl nofun
  | _ => nofun

/-- `peek_symbol` on a parser with no cached symbol. -/
theorem peekSymbol_run {p : Parser Memory} {fuel : Nat} (hsym : p.nextSymbol = .invalid)
    (hfuel : p.source.unread.length < fuel) :
    (peekSymbol memorySource fuel).run p =
      let start := (skipBlank false p.pos p.source.unread).1
      let blanks := (skipBlank false p.pos p.source.unread).2
      let symbol := (lexeme (p.source.unread.drop blanks)).1.symbol
      (.ok symbol, { moved p start blanks with nextSymbol := symbol }) := by
  rw [peekSymbol, bind_ok (run_gets _ p), hsym, if_neg (by decide),
    bind_ok (skipWhitespace_run hfuel), bind_ok (peekAt_run _ 0), moved_unread]
  have hlen : (p.source.unread.drop (skipBlank false p.pos p.source.unread).2).length < fuel := by
    rw [List.length_drop]
    omega
  have hunread := moved_unread p (skipBlank false p.pos p.source.unread).1
    (skipBlank false p.pos p.source.unread).2
  dsimp only
  generalize moved p (skipBlank false p.pos p.source.unread).1
    (skipBlank false p.pos p.source.unread).2 = q at *
  generalize p.source.unread.drop (skipBlank false p.pos p.source.unread).2 = text at *
  have hscan := lexeme_scanned text
  generalize (lexeme text).1 = lx, (lexeme text).2 = n at hscan
  cases hscan with
  | stop h =>
    rw [if_pos (by simpa using h)]
    rfl
  | @number c cs hn hd hdot =>
    have hnum := scanNumber_loop q fuel 1 cs (by rw [hunread]; rfl) (Nat.lt_of_succ_lt hlen)
    rw [if_pos hdot] at hnum
    rw [if_neg (by simpa using hn), if_pos (by simpa [or_assoc] using hd), scanNumber, bind_ok hnum]
    rfl
  | @integer c cs hn hd hdot =>
    have hnum := scanNumber_loop q fuel 1 cs (by rw [hunread]; rfl) (Nat.lt_of_succ_lt hlen)
    rw [if_neg hdot] at hnum
    rw [if_neg (by simpa using hn), if_pos (by simpa [or_assoc] using hd), scanNumber, bind_ok hnum]
    rfl
  | @sign c cs symbol hn hd hs =>
    rw [if_neg (by simpa using hn), if_neg (by simpa [or_assoc] using hd)]
    rw [show (c :: cs).getD 0 nul = c from rfl, hs]
    rfl
  | @string c cs value k hn hd hs hq hv =>
    rw [if_neg (by simpa using hn), if_neg (by simpa [or_assoc] using hd)]
    rw [show (c :: cs).getD 0 nul = c from rfl, hs]
    dsimp only
    rw [if_pos (by simpa using hq)]
    rfl
  | @openString c cs hn hd hs hq hv =>
    rw [if_neg (by simpa using hn), if_neg (by simpa [or_assoc] using hd)]
    rw [show (c :: cs).getD 0 nul = c from rfl, hs]
    dsimp only
    rw [if_pos (by simpa using hq)]
    rfl
  | @word c cs hn hd hs hq hl =>
    have hword := scanWord_run hunread (hunread ▸ hlen)
    rw [if_neg (by simpa using hn), if_neg (by simpa [or_assoc] using hd)]
    rw [show (c :: cs).getD 0 nul = c from rfl, hs, wordLexeme_symbol]
    dsimp only
    rw [if_neg (by simpa using hq), if_pos hl, bind_ok hword]
    rfl
  | @error c cs hn hd hs hq hl =>
    rw [if_neg (by simpa using hn), if_neg (by simpa [or_assoc] using hd)]
    rw [show (c :: cs).getD 0 nul = c from rfl, hs]
    dsimp only
    rw [if_neg (by simpa using hq), if_neg hl]
    rfl

/-! ## The simulation -/

theorem skipBlank_idem (comment : Bool) (pos : DocumentPosition) (text : List UInt8) :
    skipBlank false (skipBlank comment pos text).1 (text.drop (skipBlank comment pos text).2) =
      ((skipBlank comment pos text).1, 0) := by
  have h := skipBlank_blanks comment pos text
  generalize skipBlank comment pos text = r at h
  induction h with
  | @stop _ pos text hend =>
    cases text with
    | nil => rfl
    | cons c cs => exact skipBlank_stop pos (hend c rfl).1
  | blank _ _ ih => exact ih

theorem skipBlank_zero {pos : DocumentPosition} {text : List UInt8}
    (h : (skipBlank false pos text).2 = 0) : skipBlank false pos text = (pos, 0) := by
  have hblanks := skipBlank_blanks false pos text
  generalize skipBlank false pos text = r at h hblanks
  cases hblanks with
  | stop _ => rfl
  | blank _ _ => cases h

/-- Skipping blanks does not change the token sequence. -/
theorem lex_skip (pos : DocumentPosition) (text : List UInt8) :
    lex (skipBlank false pos text).1 (text.drop (skipBlank false pos text).2) = lex pos text := by
  rw [lex_eq pos text, lex_eq, skipBlank_idem]
  simp only [List.drop_zero]

theorem lex_head (pos : DocumentPosition) (text : List UInt8) :
    ∃ stop rest, lex pos text =
      ⟨(lexeme (text.drop (skipBlank false pos text).2)).1, (skipBlank false pos text).1, stop⟩ ::
        rest := by
  rw [lex_eq]
  dsimp only
  split
  · exact ⟨_, _, rfl⟩
  · exact ⟨_, _, rfl⟩

/-- At the start of a token, the token sequence is that token and the sequence
after it. -/
theorem lex_cons {pos : DocumentPosition} {text : List UInt8}
    (h : (skipBlank false pos text).2 = 0) (hlen : (lexeme text).2 ≠ 0) :
    lex pos text =
      ⟨(lexeme text).1, pos, pos.over (text.take (lexeme text).2)⟩ ::
        lex (pos.over (text.take (lexeme text).2)) (text.drop (lexeme text).2) := by
  rw [lex_eq, skipBlank_zero h]
  simp only [List.drop_zero]
  rw [if_neg hlen]

variable {s : List UInt8} {fuel : Nat}

theorem unread_lt {p : Parser Memory} {t : TokenState} (h : TokenRel s p t)
    (hfuel : s.length < fuel) : p.source.unread.length < fuel := by
  rw [Memory.unread, h.text, List.length_drop]
  omega

theorem rel_head {p : Parser Memory} {t : TokenState} (h : TokenRel s p t) :
    t.head = (lexeme (p.source.unread.drop (skipBlank false p.pos p.source.unread).2)).1 ∧
    t.peek = { t with pos := (skipBlank false p.pos p.source.unread).1 } := by
  obtain ⟨stop, rest, hlex⟩ := lex_head p.pos p.source.unread
  have htoks := h.toks.trans hlex
  constructor
  · rw [TokenState.head, htoks, headLexeme]
  · rw [TokenState.peek, htoks, startOf]

/-- What holds after `peek_symbol`: the cursor is at the start of the token and
its symbol is cached. -/
structure AtToken (s : List UInt8) (p : Parser Memory) (t : TokenState) : Prop where
  rel : TokenRel s p t
  start : (skipBlank false p.pos p.source.unread).2 = 0
  symbol : p.nextSymbol = (lexeme p.source.unread).1.symbol
  head : t.head = (lexeme p.source.unread).1

/-- The parser after `peek_symbol`: blanks are skipped and the symbol is cached. -/
def peeked (p : Parser Memory) : Parser Memory :=
  if p.nextSymbol = .invalid then
    { moved p (skipBlank false p.pos p.source.unread).1
        (skipBlank false p.pos p.source.unread).2 with
      nextSymbol :=
        (lexeme (p.source.unread.drop (skipBlank false p.pos p.source.unread).2)).1.symbol }
  else p

/-- The parser after it has taken the token under the cursor. -/
def consumed (p : Parser Memory) : Parser Memory :=
  { moved p (p.pos.over (p.source.unread.take (lexeme p.source.unread).2))
      (lexeme p.source.unread).2 with nextSymbol := .invalid }

theorem unread_length {p : Parser Memory} {t : TokenState} (h : TokenRel s p t) :
    p.source.unread.length = s.length - p.source.cursor := by
  rw [Memory.unread, List.length_drop, h.text]

theorem peeked_invalid {p : Parser Memory} (h : p.nextSymbol = .invalid) :
    peeked p = { moved p (skipBlank false p.pos p.source.unread).1
        (skipBlank false p.pos p.source.unread).2 with
      nextSymbol :=
        (lexeme (p.source.unread.drop (skipBlank false p.pos p.source.unread).2)).1.symbol } :=
  if_pos h

theorem peeked_unread (p : Parser Memory) (h : p.nextSymbol = .invalid) :
    (peeked p).source.unread = p.source.unread.drop (skipBlank false p.pos p.source.unread).2 := by
  rw [peeked_invalid h]
  exact moved_unread p (skipBlank false p.pos p.source.unread).1 _

/-- Skipping blanks in front of a token stays in front of it. -/
theorem skipped_rel {p : Parser Memory} {t : TokenState} (h : TokenRel s p t) :
    TokenRel s (moved p (skipBlank false p.pos p.source.unread).1
      (skipBlank false p.pos p.source.unread).2) t.peek := by
  obtain ⟨-, hpeek⟩ := rel_head h
  refine ⟨h.text, ?_, by rw [hpeek, moved_pos], ?_, ?_⟩
  · have hle := skipBlank_le false p.pos p.source.unread
    have hlen := unread_length h
    have hin := h.inside
    show p.source.cursor + (skipBlank false p.pos p.source.unread).2 ≤ s.length
    omega
  · rw [hpeek, moved_pos, moved_unread, lex_skip]
    exact h.toks
  · rcases h.cached with hinvalid | ⟨hzero, hsym⟩
    · exact Or.inl hinvalid
    · refine Or.inr ⟨?_, ?_⟩
      · rw [moved_pos, moved_unread, skipBlank_idem]
      · rw [moved_unread, hzero, List.drop_zero]
        exact hsym

/-- At the start of a token, looking at it does not move the parser. -/
theorem peeked_here {p : Parser Memory} (h : (skipBlank false p.pos p.source.unread).2 = 0) :
    (peeked p).source = p.source ∧ (peeked p).pos = p.pos := by
  by_cases hsym : p.nextSymbol = .invalid
  · rw [peeked_invalid hsym]
    dsimp only [moved]
    rw [skipBlank_zero h]
    exact ⟨rfl, rfl⟩
  · rw [peeked, if_neg hsym]
    exact ⟨rfl, rfl⟩

theorem peekSymbol_rel (hfuel : s.length < fuel) {p : Parser Memory} {t : TokenState}
    (h : TokenRel s p t) :
    (peekSymbol memorySource fuel).run p = (.ok t.head.symbol, peeked p) ∧
      AtToken s (peeked p) t.peek := by
  obtain ⟨hhead, hpeek⟩ := rel_head h
  rcases h.cached with hinv | ⟨hstart, hsym⟩
  · have hunread := peeked_unread p hinv
    have hpos : (peeked p).pos = (skipBlank false p.pos p.source.unread).1 := by
      rw [peeked_invalid hinv]
      rfl
    have hcached : (peeked p).nextSymbol = t.head.symbol := by
      rw [peeked_invalid hinv, hhead]
    have hstart : (skipBlank false (peeked p).pos (peeked p).source.unread).2 = 0 := by
      rw [hpos, hunread, skipBlank_idem]
    have hsymbol : (peeked p).nextSymbol = (lexeme (peeked p).source.unread).1.symbol := by
      rw [hcached, hunread, hhead]
    have hskipped := skipped_rel h
    have hrel : TokenRel s (peeked p) t.peek := by
      refine ⟨?_, ?_, ?_, ?_, Or.inr ⟨hstart, hsymbol⟩⟩
      all_goals rw [peeked_invalid hinv]
      exacts [hskipped.text, hskipped.inside, hskipped.pos, hskipped.toks]
    refine ⟨?_, hrel, hstart, hsymbol, ?_⟩
    · rw [peekSymbol_run hinv (unread_lt h hfuel), peeked_invalid hinv, hhead]
    · rw [hunread]
      exact hhead
  · have hzero := skipBlank_zero hstart
    rw [hzero, List.drop_zero] at hhead
    rw [hzero] at hpeek
    have ht : t.peek = t := by
      rw [hpeek, ← h.pos]
    have hne : p.nextSymbol ≠ .invalid := by
      rw [hsym]
      exact lexeme_symbol_ne_invalid p.source.unread
    rw [peeked, if_neg hne, ht]
    refine ⟨?_, h, hstart, hsym, hhead⟩
    rw [peekSymbol, bind_ok (run_gets _ p), if_pos (by simpa using hne), hsym, hhead]
    rfl

theorem consumed_unread (p : Parser Memory) :
    (consumed p).source.unread = p.source.unread.drop (lexeme p.source.unread).2 :=
  moved_unread p (p.pos.over (p.source.unread.take (lexeme p.source.unread).2)) _

theorem consumed_rel {p : Parser Memory} {t : TokenState} (h : AtToken s p t)
    (hpos : (lexeme p.source.unread).2 ≠ 0) : TokenRel s (consumed p) t.next := by
  have hle := lexeme_le p.source.unread
  have htoks := h.rel.toks.trans (lex_cons h.start hpos)
  rw [TokenState.next, htoks]
  refine ⟨h.rel.text, ?_, rfl, ?_, Or.inl rfl⟩
  · have hin := h.rel.inside
    have hlen := unread_length h.rel
    show p.source.cursor + (lexeme p.source.unread).2 ≤ s.length
    omega
  · rw [consumed_unread]
    rfl

/-- A relation between parsers and places in the token sequence that is kept
when the parser looks at the next token and when it takes it. -/
structure Follows (s : List UInt8) (R : Parser Memory → TokenState → Prop) : Prop where
  rel : ∀ p t, R p t → TokenRel s p t
  peek : ∀ p t, R p t → R (peeked p) t.peek
  next : ∀ p t, R p t → AtToken s p t → (lexeme p.source.unread).2 ≠ 0 → R (consumed p) t.next

theorem tokenRel_follows (s : List UInt8) : Follows s (TokenRel s) where
  rel _ _ h := h
  peek _ _ h := (peekSymbol_rel (Nat.lt_succ_self s.length) h).2.rel
  next _ _ _ h hpos := consumed_rel h hpos

variable {R : Parser Memory → TokenState → Prop}

theorem peekSymbol_tokenSim (hR : Follows s R) (hfuel : s.length < fuel) :
    Sim R (peekSymbol memorySource fuel) tokenPeek := by
  intro p t h
  rw [(peekSymbol_rel hfuel (hR.rel p t h)).1]
  exact ⟨rfl, hR.peek p t h⟩

/-- `expect`, at the start of the expected token. -/
theorem expect_run (hfuel : s.length < fuel) {p : Parser Memory} {t : TokenState}
    (h : TokenRel s p t) {expected : Symbol} (hsym : t.head.symbol = expected) :
    (expect (peekSymbol memorySource fuel) Parser.pos expected).run p = (.ok (), peeked p) := by
  rw [expect, bind_ok (peekSymbol_rel hfuel h).1, hsym, bne_self_eq_false]
  rfl

/-- `expect`, at the start of another token. -/
theorem expect_refused (hfuel : s.length < fuel) {p : Parser Memory} {t : TokenState}
    (h : TokenRel s p t) {expected : Symbol} (hsym : t.head.symbol ≠ expected) :
    ∃ e, (expect (peekSymbol memorySource fuel) Parser.pos expected).run p =
        (.throw e, peeked (peeked p)) ∧
      ∀ α : Type, (unexpected tokenPeek TokenState.pos expected : Run TokenState Exception α).run
        t.peek = (.throw e, t.peek.peek) := by
  obtain ⟨hrun, hat⟩ := peekSymbol_rel hfuel h
  obtain ⟨hagain, hat'⟩ := peekSymbol_rel hfuel hat.rel
  refine ⟨_, ?_, fun _ => rfl⟩
  rw [expect, bind_ok hrun, if_pos (by simpa using hsym), unexpected, bind_ok hagain,
    bind_ok (run_gets _ _), run_raise, ← hat'.rel.pos]

/-- How a token function ends from `p`, at the place `t`: it takes the token, it
reads on for ever in a string literal that is never closed, or it has found
another token than the expected one. -/
inductive TakeOutcome {α : Type} (expected : Symbol) (take : Lexeme → Option α)
    (p : Parser Memory) (t : TokenState) : Outcome Exception α × Parser Memory → Prop where
  | took {a : α} (hsym : t.head.symbol = expected) (htake : take t.head = some a)
    (hlen : (lexeme (peeked p).source.unread).2 ≠ 0) :
    TakeOutcome expected take p t (.ok a, consumed (peeked p))
  | hangs (hstring : expected = .string) (hopen : t.head = .openString)
    (htake : take t.head = none) : TakeOutcome expected take p t (.outOfFuel, peeked p)
  | refused {e : Exception} (hsym : t.head.symbol ≠ expected) (htake : take t.head = none)
    (hthrow : ∀ β : Type, (unexpected tokenPeek TokenState.pos expected :
      Run TokenState Exception β).run t.peek = (.throw e, t.peek.peek)) :
    TakeOutcome expected take p t (.throw e, peeked (peeked p))

/-- A token function is `expect` and then the reading `m` of the token. -/
theorem take_outcome (hfuel : s.length < fuel) {α : Type} {expected : Symbol}
    {m : ParserM Memory α} {take : Lexeme → Option α}
    (hnone : ∀ lx, lx.symbol ≠ expected → take lx = none)
    (hm : ∀ p t, AtToken s p t → t.head.symbol = expected →
      (∃ a, m.run p = (.ok a, consumed p) ∧ take t.head = some a ∧
        (lexeme p.source.unread).2 ≠ 0) ∨
      m.run p = (.outOfFuel, p) ∧ take t.head = none ∧ expected = .string ∧
        t.head = .openString) {p : Parser Memory} {t : TokenState} (h : TokenRel s p t) :
    TakeOutcome expected take p t
      ((do expect (peekSymbol memorySource fuel) Parser.pos expected; m : ParserM Memory α).run
        p) := by
  by_cases hsym : t.head.symbol = expected
  · rw [bind_ok (expect_run hfuel h hsym)]
    rcases hm (peeked p) t.peek (peekSymbol_rel hfuel h).2 hsym with
      ⟨a, hm', htake, hlen⟩ | ⟨hm', htake, hstring, hopen⟩
    · rw [hm']
      exact .took hsym htake hlen
    · rw [hm']
      exact .hangs hstring hopen htake
  · obtain ⟨e, hexpect, hthrow⟩ := expect_refused hfuel h hsym
    rw [bind_throw hexpect]
    exact .refused hsym (hnone _ hsym) hthrow

theorem outcome_sim (hR : Follows s R) (hfuel : s.length < fuel) {α : Type} {expected : Symbol}
    {m : ParserM Memory α} {take : Lexeme → Option α}
    (hm : ∀ {p t}, TokenRel s p t → TakeOutcome expected take p t (m.run p)) :
    Sim R m (tokenTake expected take) := by
  intro p t h
  have hat := (peekSymbol_rel hfuel (hR.rel p t h)).2
  have hpeek := hR.peek p t h
  have hout := hm (hR.rel p t h)
  obtain ⟨o, p', hrun⟩ : ∃ o p', m.run p = (o, p') := ⟨_, _, rfl⟩
  rw [hrun] at hout ⊢
  cases hout with
  | took _ htake hlen =>
    rw [tokenTake_some htake]
    exact ⟨rfl, hR.next _ _ hpeek hat hlen⟩
  | hangs hstring hopen htake =>
    subst hstring
    rw [tokenTake_open htake hopen]
    exact ⟨rfl, hpeek⟩
  | refused hsym htake hthrow =>
    have hopen : ¬(expected = .string ∧ t.head = .openString) := by
      rintro ⟨rfl, hopen⟩
      exact hsym (congrArg Lexeme.symbol hopen)
    rw [tokenTake_unexpected htake hopen, hthrow]
    exact ⟨rfl, hR.peek _ _ hpeek⟩

/-- `advance` over the token under the cursor. -/
theorem advance_consumed {p : Parser Memory} {n : Nat} (hn : (lexeme p.source.unread).2 = n) :
    (advance memorySource n).run p = (.ok (), consumed p) := by
  subst hn
  exact advance_run p _ (lexeme_le p.source.unread)

/-- A sign or keyword is as long as `parse_symbol` takes it to be. -/
theorem lexeme_length {text : List UInt8} {n : Nat}
    (h : symbolLength (lexeme text).1.symbol = some n) : (lexeme text).2 = n ∧ n ≠ 0 := by
  have hscan := lexeme_scanned text
  generalize (lexeme text).1 = lx, (lexeme text).2 = m at hscan h
  cases hscan with
  | sign _ _ hs =>
    rw [Lexeme.symbol, signSymbol_length hs] at h
    cases h
    exact ⟨rfl, Nat.one_ne_zero⟩
  | @word c cs _ _ _ _ _ =>
    rw [wordLexeme_symbol] at h
    rcases wordSymbol_length (c :: cs.takeWhile isWordByte) with hw | hw
    · rw [hw] at h
      cases h
    · rw [hw] at h
      cases h
      exact ⟨rfl, Nat.succ_ne_zero _⟩
  | _ => cases h

theorem fixed_lexeme {text : List UInt8} {symbol : Symbol}
    (hsym : (lexeme text).1.symbol = symbol) (hlen : (symbolLength symbol).isSome) :
    (lexeme text).1 = .fixed symbol := by
  subst hsym
  generalize (lexeme text).1 = lx at *
  cases lx with
  | fixed symbol => rfl
  | _ => cases hlen

/-- `parse_symbol` of a sign or keyword. -/
theorem parseSymbol_outcome (hfuel : s.length < fuel) {symbol : Symbol} {n : Nat}
    (hlen : symbolLength symbol = some n) {p : Parser Memory} {t : TokenState}
    (h : TokenRel s p t) :
    TakeOutcome symbol (Lexeme.takeFixed symbol) p t ((parseSymbol memorySource fuel symbol).run p)
    := by
  have hsome : (symbolLength symbol).isSome = true := by rw [hlen]; rfl
  unfold parseSymbol
  rw [hlen]
  refine take_outcome hfuel ?_ (fun p t hat hsym => ?_) h
  · intro lx hlx
    exact if_neg (by rintro rfl; exact hlx rfl)
  · rw [hat.head] at hsym
    have hfixed := fixed_lexeme hsym hsome
    rw [← hsym] at hlen
    obtain ⟨hl, hpos⟩ := lexeme_length hlen
    refine Or.inl ⟨(), ?_, ?_, hl ▸ hpos⟩
    · dsimp only
      rw [bind_ok (advance_consumed hl), trim_run]
    · rw [hat.head, hfixed, Lexeme.takeFixed, if_pos rfl]

theorem parseSymbol_tokenSim (hR : Follows s R) (hfuel : s.length < fuel) (symbol : Symbol) :
    Sim R (parseSymbol memorySource fuel symbol) (tokenLexer.parseSymbol symbol) := by
  show Sim _ _ (if (symbolLength symbol).isSome then _ else _)
  cases hlen : symbolLength symbol with
  | none =>
    rw [if_neg (by decide)]
    unfold parseSymbol
    rw [hlen]
    refine Sim.bind (SimulationLemmas.expect_sim (peekSymbol_tokenSim hR hfuel)
      (fun p t h => (hR.rel p t h).pos.symm) symbol) fun _ => ?_
    exact fun _ _ h => ⟨rfl, h⟩
  | some n =>
    rw [if_pos (by rfl)]
    exact outcome_sim hR hfuel (parseSymbol_outcome hfuel hlen)

theorem identifier_lexeme {text : List UInt8} (h : (lexeme text).1.symbol = .identifier) :
    (lexeme text).1 = .identifier (text.takeWhile isWordByte) ∧
    (lexeme text).2 = (text.takeWhile isWordByte).length ∧ (lexeme text).2 ≠ 0 := by
  have hscan := lexeme_scanned text
  generalize (lexeme text).1 = lx, (lexeme text).2 = m at hscan h
  cases hscan with
  | sign _ _ hs => exact absurd h (signSymbol_ne hs rfl)
  | @word c cs _ _ _ _ hl =>
    have hfirst : isWordByte c = true := by simp [isWordByte, hl]
    rw [wordLexeme_symbol] at h
    rw [wordLexeme, if_pos h, List.takeWhile_cons_of_pos hfirst]
    exact ⟨rfl, rfl, Nat.succ_ne_zero _⟩
  | _ => cases h

theorem string_lexeme {text : List UInt8} (h : (lexeme text).1.symbol = .string) :
    ∃ c cs, text = c :: cs ∧ c ≠ nul ∧
      ((∃ value n, lexeme text = (.string value, n + 1) ∧
          stringRest c false cs = some (value, n)) ∨
        (lexeme text).1 = .openString ∧ stringRest c false cs = none) := by
  have hscan := lexeme_scanned text
  obtain ⟨lx, m, hlex⟩ : ∃ lx m, lexeme text = (lx, m) := ⟨_, _, rfl⟩
  rw [hlex] at hscan h ⊢
  dsimp only at hscan h
  cases hscan with
  | sign _ _ hs => exact absurd h (signSymbol_ne hs rfl)
  | word _ _ _ _ _ => exact absurd h (wordLexeme_ne _ rfl nofun)
  | string hn _ _ _ hv => exact ⟨_, _, rfl, hn, Or.inl ⟨_, _, rfl, hv⟩⟩
  | openString hn _ _ _ hv => exact ⟨_, _, rfl, hn, Or.inr ⟨rfl, hv⟩⟩
  | _ => cases h

theorem integer_lexeme {text : List UInt8} (h : (lexeme text).1.symbol = .integer) :
    ∃ c cs, text = c :: cs ∧ (isDigit c ∨ c = minusSign ∨ c = plusSign) ∧
      lexeme text = (.integer (wrapInt64 (integerValue c (cs.takeWhile isDigit))),
        (cs.takeWhile isDigit).length + 1) := by
  have hscan := lexeme_scanned text
  obtain ⟨lx, m, hlex⟩ : ∃ lx m, lexeme text = (lx, m) := ⟨_, _, rfl⟩
  rw [hlex] at hscan h ⊢
  dsimp only at hscan h
  cases hscan with
  | sign _ _ hs => exact absurd h (signSymbol_ne hs rfl)
  | word _ _ _ _ _ => exact absurd h (wordLexeme_ne _ rfl nofun)
  | integer _ hd _ => exact ⟨_, _, rfl, hd, rfl⟩
  | _ => cases h

/-- The end of the document: a NUL byte or none, and nothing is taken. -/
theorem lexeme_eof {text : List UInt8} (h : (lexeme text).1.symbol = .eof) :
    text.getD 0 nul = nul ∧ (lexeme text).2 = 0 := by
  have hscan := lexeme_scanned text
  generalize (lexeme text).1 = lx, (lexeme text).2 = m at hscan h
  cases hscan with
  | stop hnul => exact ⟨hnul, rfl⟩
  | sign _ _ hs => exact absurd h (signSymbol_ne hs rfl)
  | word _ _ _ _ _ => exact absurd h (wordLexeme_ne _ rfl nofun)
  | _ => cases h

theorem parseIdentifier_outcome (hfuel : s.length < fuel) {p : Parser Memory} {t : TokenState}
    (h : TokenRel s p t) :
    TakeOutcome .identifier Lexeme.takeIdentifier p t
      ((parseIdentifier memorySource fuel).run p) := by
  unfold parseIdentifier
  refine take_outcome hfuel ?_ (fun p t hat hsym => ?_) h
  · intro lx hlx
    cases lx with
    | identifier name => exact absurd rfl hlx
    | _ => rfl
  rw [hat.head] at hsym
  obtain ⟨hname, hlen, hpos⟩ := identifier_lexeme hsym
  have hcollect := collect_run p isWordByte rfl (fun len ret => (len, ret)) fuel 0 []
    p.source.unread List.drop_zero (unread_lt hat.rel hfuel)
  rw [Nat.zero_add, List.nil_append, ← hlen] at hcollect
  refine Or.inl ⟨p.source.unread.takeWhile isWordByte, ?_, ?_, hpos⟩
  · rw [bind_ok hcollect, bind_ok (advance_consumed rfl)]
    rfl
  · rw [hat.head, hname]
    rfl

theorem parseString_outcome (hfuel : s.length < fuel) {p : Parser Memory} {t : TokenState}
    (h : TokenRel s p t) :
    TakeOutcome .string Lexeme.takeString p t ((parseString memorySource fuel).run p) := by
  unfold parseString
  refine take_outcome hfuel ?_ (fun p t hat hsym => ?_) h
  · intro lx hlx
    cases lx with
    | string value => exact absurd rfl hlx
    | _ => rfl
  have hlt := unread_lt hat.rel hfuel
  rw [hat.head] at hsym
  obtain ⟨c, cs, htext, hnul, hcases⟩ := string_lexeme hsym
  have hdelim : p.source.unread.getD 0 nul = c := by
    rw [htext]
    rfl
  have hdrop : p.source.unread.drop 1 = cs := by
    rw [htext]
    rfl
  rw [bind_ok (peekAt_run p 0), hdelim]
  rcases hcases with ⟨value, n, hlex, hrest⟩ | ⟨hlex, hrest⟩
  · have hshort : cs.length < fuel := by
      rw [htext] at hlt
      exact Nat.lt_of_succ_lt hlt
    have hloop := string_loop fuel 1 [] cs hdrop hrest hshort
    rw [Nat.add_comm, List.nil_append] at hloop
    have hlen : (lexeme p.source.unread).2 = n + 1 := by rw [hlex]
    refine Or.inl ⟨value, ?_, ?_, hlen ▸ Nat.succ_ne_zero n⟩
    · rw [bind_ok hloop, bind_ok (advance_consumed hlen)]
      rfl
    · rw [hat.head, hlex]
      rfl
  · have hloop := string_loop_open hnul fuel 1 [] cs hdrop hrest
    rw [bind_outOfFuel hloop, hat.head, hlex]
    exact Or.inr ⟨rfl, rfl, rfl, rfl⟩

/-- The digits of an integer lexeme as the loop of `parse_integer` reads them:
from the first byte, or from the byte after a sign. -/
theorem integer_digits {c : UInt8} (cs : List UInt8)
    (hc : isDigit c ∨ c = minusSign ∨ c = plusSign) :
    ∃ start digits, start = (if c == minusSign || c == plusSign then 1 else 0) ∧
      ((c :: cs).drop start).takeWhile isDigit = digits ∧
      start + digits.length = (cs.takeWhile isDigit).length + 1 ∧
      integerValue c (cs.takeWhile isDigit) =
        if c == minusSign then -(decimal digits : Int) else decimal digits := by
  refine ⟨_, _, rfl, rfl, ?_⟩
  by_cases hm : c = minusSign
  · subst hm
    exact ⟨Nat.add_comm _ _, rfl⟩
  by_cases hp : c = plusSign
  · subst hp
    exact ⟨Nat.add_comm _ _, rfl⟩
  · have hd : isDigit c = true := by tauto
    have hstart : (if c == minusSign || c == plusSign then 1 else 0) = 0 := by simp [hm, hp]
    rw [hstart, List.drop_zero, List.takeWhile_cons_of_pos hd]
    refine ⟨Nat.zero_add _, ?_⟩
    rw [integerValue, if_neg hm, if_neg hp, if_neg (by simpa using hm)]

theorem parseInteger_outcome (hfuel : s.length < fuel) {p : Parser Memory} {t : TokenState}
    (h : TokenRel s p t) :
    TakeOutcome .integer Lexeme.takeInteger p t ((parseInteger memorySource fuel).run p) := by
  unfold parseInteger
  refine take_outcome hfuel ?_ (fun p t hat hsym => ?_) h
  · intro lx hlx
    cases lx with
    | integer value => exact absurd rfl hlx
    | _ => rfl
  have hlt := unread_lt hat.rel hfuel
  rw [hat.head] at hsym
  obtain ⟨c, cs, htext, hc, hlex⟩ := integer_lexeme hsym
  obtain ⟨start, digits, hstart, hdigits, hlen, hvalue⟩ := integer_digits cs hc
  have hfirst : p.source.unread.getD 0 nul = c := by
    rw [htext]
    rfl
  have hshort : (p.source.unread.drop start).length < fuel := by
    rw [List.length_drop]
    omega
  have hloop := integer_loop fuel start 0 _ rfl hshort
  have hfold := foldl_wrapInt64 digits 0
  rw [show wrapInt64 ((0 : Nat) : Int) = 0 from rfl] at hfold
  rw [htext, hdigits, hfold, hlen] at hloop
  have htaken : (lexeme p.source.unread).2 = (cs.takeWhile isDigit).length + 1 := by rw [hlex]
  refine Or.inl ⟨_, ?_, (congrArg _ hat.head).trans (by rw [hlex, Lexeme.takeInteger]),
    htaken ▸ Nat.succ_ne_zero _⟩
  rw [bind_ok (peekAt_run p 0), hfirst]
  dsimp only
  rw [← hstart, bind_ok hloop, bind_ok (advance_consumed htaken)]
  simp only [run_pure, hvalue, Prod.mk.injEq, Outcome.ok.injEq, decimal, and_true]
  cases c == minusSign with
  | true => rw [if_pos rfl, if_pos rfl, wrapInt64_neg]
  | false => rw [if_neg Bool.false_ne_true, if_neg Bool.false_ne_true]

end ScanningLemmas

open ScanningLemmas

/-- The lexical functions over a document in memory walk its token sequence, and
keep every relation that looking at a token and taking it keep. -/
theorem scanner_walk_sim {s : List UInt8} {R : Parser Memory → TokenState → Prop}
    (hR : Follows s R) {fuel : Nat} (hfuel : s.length < fuel) :
    LexerSim (scanner memorySource fuel) tokenLexer R where
  peekSymbol := peekSymbol_tokenSim hR hfuel
  parseSymbol := parseSymbol_tokenSim hR hfuel
  parseIdentifier := outcome_sim hR hfuel (parseIdentifier_outcome hfuel)
  parseString := outcome_sim hR hfuel (parseString_outcome hfuel)
  parseInteger := outcome_sim hR hfuel (parseInteger_outcome hfuel)
  currentPosition := fun p t h => (hR.rel p t h).pos.symm

theorem scanner_token_sim {s : List UInt8} {fuel : Nat} (hfuel : s.length < fuel) :
    LexerSim (scanner memorySource fuel) tokenLexer (TokenRel s) :=
  scanner_walk_sim (tokenRel_follows s) hfuel

/-- The parser starts before the first token. -/
theorem tokenRel_init (filename s : List UInt8) :
    TokenRel s (Parser.init filename ⟨s, 0⟩) ⟨⟨filename, 1, 0⟩, tokens filename s⟩ where
  text := rfl
  inside := Nat.zero_le _
  pos := rfl
  toks := rfl
  cached := Or.inl rfl

end Ian.Happy
