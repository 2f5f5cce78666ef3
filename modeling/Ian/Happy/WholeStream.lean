import Ian.Happy.Placing
import Ian.Happy.Stopping

/-!
# Reading the whole stream

`peek_at` answers NUL at the end of the stream, and for a NUL byte in it. So a
NUL byte between tokens or in a comment ends the document, and what comes after
it is never read. A string literal may have NUL bytes in it. The parser has read
the whole of a stream it accepts exactly if the stream has no NUL byte outside
its string literals (`whole_stream_iff`).
-/

namespace Ian.Happy

open Ian.Lib Run Rule

/-- What a byte is part of, from left to right: `stopped` is after a NUL byte
outside string literals, and `wrong` after a byte that no token starts with or
goes on with. -/
inductive Mode where
  | text
  | comment
  | string (delim : UInt8)
  | escaped (delim : UInt8)
  | stopped
  | wrong
deriving DecidableEq, Repr

/-- A byte of a token other than a string, or a space. -/
def isPlainByte (c : UInt8) : Bool :=
  isWordByte c || c == minusSign || c == plusSign || (signSymbol c).isSome ||
    c == spaceByte || c == tab || c == lineFeed || c == carriageReturn

def Mode.next : Mode → UInt8 → Mode
  | .text, c =>
    if c = nul then .stopped
    else if c = commentMark then .comment
    else if c = singleQuote ∨ c = doubleQuote then .string c
    else if isPlainByte c then .text
    else .wrong
  | .comment, c =>
    if c = nul then .stopped
    else if c = lineFeed ∨ c = carriageReturn then .text
    else .comment
  | .string delim, c =>
    if c = delim then .text
    else if c = backslash then .escaped delim
    else .string delim
  | .escaped delim, _ => .string delim
  | .stopped, _ => .stopped
  | .wrong, _ => .wrong

/-- The mode after a text. -/
def modeAfter (mode : Mode) (text : List UInt8) : Mode := text.foldl Mode.next mode

/-- The mode the end of the stream is read in: a comment ends there. -/
def Mode.atEnd : Mode → Mode
  | .comment => .text
  | mode => mode

namespace WholeStreamLemmas

open LexingLemmas ScanningLemmas PlacingLemmas StoppingLemmas

/-! ## The mode at the start of a token -/

@[simp] theorem modeAfter_cons (mode : Mode) (c : UInt8) (cs : List UInt8) :
    modeAfter mode (c :: cs) = modeAfter (mode.next c) cs := rfl

theorem modeAfter_append (mode : Mode) (text text' : List UInt8) :
    modeAfter mode (text ++ text') = modeAfter (modeAfter mode text) text' := List.foldl_append

theorem modeAfter_stopped (text : List UInt8) : modeAfter .stopped text = .stopped := by
  induction text with
  | nil => rfl
  | cons c cs ih => exact ih

theorem modeAfter_wrong (text : List UInt8) : modeAfter .wrong text = .wrong := by
  induction text with
  | nil => rfl
  | cons c cs ih => exact ih

/-- A byte of no token but of words, numbers and signs keeps the mode. -/
theorem text_next {c : UInt8} (hc : isPlainByte c = true) (hnul : c ≠ nul)
    (hcomment : c ≠ commentMark) (hquote : ¬(c = singleQuote ∨ c = doubleQuote)) :
    Mode.next .text c = .text := by
  rw [Mode.next, if_neg hnul, if_neg hcomment, if_neg hquote, if_pos hc]

theorem wordByte_next {c : UInt8} (hc : isWordByte c = true) : Mode.next .text c = .text := by
  have hne : ∀ {d : UInt8}, isWordByte d = false → c ≠ d := by
    rintro d hd rfl
    cases hc.symm.trans hd
  have hplain : isPlainByte c = true := by
    simp [isPlainByte, hc]
  refine text_next hplain (hne (by decide)) (hne (by decide)) ?_
  rintro (h | h)
  · exact hne (by decide) h
  · exact hne (by decide) h

theorem modeAfter_words {word : List UInt8} (h : ∀ c ∈ word, isWordByte c = true)
    (rest : List UInt8) : modeAfter .text (word ++ rest) = modeAfter .text rest := by
  induction word with
  | nil => rfl
  | cons c cs ih =>
    rw [List.cons_append, modeAfter_cons, wordByte_next (h c List.mem_cons_self)]
    exact ih fun c' hc => h c' (.tail _ hc)

/-- A string literal is left where it is closed. -/
theorem modeAfter_string {delim : UInt8} {escaped : Bool} {text value : List UInt8} {n : Nat}
    (h : stringRest delim escaped text = some (value, n)) :
    modeAfter (if escaped then .escaped delim else .string delim) text =
      modeAfter .text (text.drop n) := by
  induction text generalizing escaped value n with
  | nil => cases h
  | cons c cs ih =>
    cases escaped with
    | true =>
      obtain ⟨⟨value', n'⟩, hrest, heq⟩ := Option.map_eq_some_iff.mp h
      cases heq
      exact ih hrest
    | false =>
      unfold stringRest at h
      rw [modeAfter_cons, if_neg Bool.false_ne_true, Mode.next]
      split at h
      · next hc =>
        cases h
        rw [if_pos hc]
        rfl
      · next hc =>
        rw [if_neg hc]
        split at h
        · next hslash =>
          obtain ⟨⟨value', n'⟩, hrest, heq⟩ := Option.map_eq_some_iff.mp h
          cases heq
          rw [if_pos hslash]
          exact ih hrest
        · next hslash =>
          obtain ⟨⟨value', n'⟩, hrest, heq⟩ := Option.map_eq_some_iff.mp h
          cases heq
          rw [if_neg hslash]
          exact ih hrest

theorem takeWhile_drop (f : UInt8 → Bool) (cs : List UInt8) :
    cs.takeWhile f ++ cs.drop (cs.takeWhile f).length = cs := by
  have htake := List.prefix_iff_eq_take.mp (List.takeWhile_prefix f (l := cs))
  conv_lhs => rw [htake, List.length_take_of_le (List.takeWhile_prefix f).length_le]
  exact List.take_append_drop _ cs

/-- A run of word bytes is left where it ends. -/
theorem modeAfter_takeWhile {f : UInt8 → Bool} (hf : ∀ c, f c = true → isWordByte c = true)
    (cs : List UInt8) :
    modeAfter .text cs = modeAfter .text (cs.drop (cs.takeWhile f).length) := by
  conv_lhs => rw [← takeWhile_drop f cs]
  exact modeAfter_words (fun c hc => hf c (List.mem_takeWhile_imp hc)) _

theorem digit_wordByte (c : UInt8) (h : isDigit c = true) : isWordByte c = true := by
  simp [isWordByte, h]

/-- After a token the mode is what it was. -/
theorem modeAfter_lexeme {text : List UInt8} (h : (lexeme text).2 ≠ 0) :
    modeAfter .text text = modeAfter .text (text.drop (lexeme text).2) := by
  have hscan := lexeme_scanned text
  generalize (lexeme text).1 = lx, (lexeme text).2 = m at hscan h ⊢
  cases hscan with
  | stop _ => exact absurd rfl h
  | number _ _ _ => exact absurd rfl h
  | openString _ _ _ _ _ => exact absurd rfl h
  | error _ _ _ _ _ => exact absurd rfl h
  | @integer c cs hnul hc _ =>
    have hfirst : Mode.next .text c = .text := by
      rcases hc with hdigit | rfl | rfl
      · exact wordByte_next (digit_wordByte c hdigit)
      · rfl
      · rfl
    rw [modeAfter_cons, hfirst, List.drop_succ_cons]
    exact modeAfter_takeWhile digit_wordByte cs
  | @sign c cs symbol hnul hd hs =>
    have hfirst : Mode.next .text c = .text := by
      simp only [signSymbol] at hs
      split_ifs at hs <;> (subst c; rfl)
    rw [modeAfter_cons, hfirst]
    rfl
  | @string c cs value n hnul hd hs hquote hrest =>
    have hfirst : Mode.next .text c = .string c := by
      rcases hquote with rfl | rfl <;> rfl
    rw [modeAfter_cons, hfirst]
    exact modeAfter_string hrest
  | @word c cs _ _ _ _ hletter =>
    have hfirst : isWordByte c = true := by simp [isWordByte, hletter]
    rw [modeAfter_cons, wordByte_next hfirst]
    exact modeAfter_takeWhile (fun _ h => h) cs

/-- The mode inside a comment or outside one. -/
def blankMode (comment : Bool) : Mode := bif comment then .comment else .text

/-- After blanks the mode is what it was, except that a comment may end at the
end of the stream. -/
theorem modeAfter_blank (comment : Bool) (pos : DocumentPosition) (text : List UInt8) :
    (modeAfter (blankMode comment) text).atEnd =
      (modeAfter .text (text.drop (skipBlank comment pos text).2)).atEnd := by
  have h := skipBlank_blanks comment pos text
  generalize skipBlank comment pos text = r at h
  induction h with
  | @stop comment pos text hend =>
    cases comment with
    | false => rfl
    | true =>
      -- Only a NUL byte ends a comment and is not read.
      cases text with
      | nil => rfl
      | cons c cs =>
        obtain rfl := (hend c rfl).2 rfl
        rfl
  | @blank comment comment' pos pos' c cs r hblank _ ih =>
    refine Eq.trans ?_ ih
    cases hblank with
    | lf => cases comment <;> rfl
    | cr => cases comment <;> rfl
    | inside hlf hcr hnul =>
      show (modeAfter (Mode.comment.next c) cs).atEnd = _
      rw [Mode.next, if_neg hnul, if_neg (not_or_intro hlf hcr)]
      rfl
    | space hc => rcases hc with rfl | rfl <;> rfl
    | mark => rfl

/-- At every token the mode of what is left tells the mode at the end. -/
theorem modeAfter_placed {start : DocumentPosition} {s : List UInt8} {next : Place}
    (h : next ∈ placed 0 start s) :
    (modeAfter .text s).atEnd = (modeAfter .text (s.drop next.offset)).atEnd := by
  obtain ⟨rest, ⟨rfl, hmode⟩, _⟩ := placed_forall
    (P := fun n _ text => text = s.drop n ∧
      (modeAfter .text s).atEnd = (modeAfter .text text).atEnd)
    (fun n pos text ⟨htext, hmode⟩ => ⟨by rw [htext, List.drop_drop], by
      rw [hmode, ← blankLength_eq pos]
      exact modeAfter_blank false pos text⟩)
    (fun n pos text ⟨htext, hmode⟩ hlen => ⟨by rw [htext, List.drop_drop], by
      rw [hmode, modeAfter_lexeme hlen]⟩)
    ⟨List.drop_zero.symm, rfl⟩ next h
  exact hmode

/-! ## Where a document is accepted -/

variable {ρ : Type} {rd : StreamReader ρ} {r : ρ} {s filename : List UInt8}

theorem delivers_unique {r : ρ} {s s' : List UInt8} (h : Delivers rd r s)
    (h' : Delivers rd r s') : s = s' := by
  induction hlen : s.length using Nat.strong_induction_on generalizing r s s' with
  | _ k ih =>
    obtain ⟨_, hnil, rest, hs, hrest⟩ := BufferLemmas.delivers_read h Nat.one_pos
    obtain ⟨_, hnil', rest', hs', hrest'⟩ := BufferLemmas.delivers_read h' Nat.one_pos
    by_cases hread : (rd.read r 1).1 = []
    · rw [hnil hread, hnil' hread]
    · have hshort : rest.length < k := by
        have hpos := List.length_pos_iff.mpr hread
        rw [← hlen, hs, List.length_append]
        exact Nat.lt_add_of_pos_left hpos
      rw [hs, hs', ih _ hshort hrest hrest' rfl]

theorem holds_unique {b : Buffer ρ} {text text' : List UInt8} (h : Holds rd b text)
    (h' : Holds rd b text') : text = text' := by
  obtain ⟨und, hd, _, rfl⟩ := h
  obtain ⟨und', hd', _, rfl⟩ := h'
  rw [delivers_unique hd hd']

/-- A document is accepted at its end. -/
theorem answer_end {toks : List Token} {result : Outcome Exception AstRoot × TokenState}
    {t : AstRoot} {hang : List Token → Prop}
    (h : Answer TokenState.toks IsParse (fun _ => True) (documentRule filename) hang toks result)
    (hok : result.1 = .ok t) : (headLexeme result.2.toks).symbol = .eof := by
  cases h with
  | ok hg _ _ =>
    obtain ⟨_, _, _, _, _, _, _, _, _, _, _, ⟨hend, rfl⟩, _, heq⟩ := hg
    rw [heq]
    exact hend
  | throw _ _ _ => cases hok
  | outOfFuel _ _ => cases hok

/-- A document is accepted at the end of the stream or before a NUL byte that is
outside string literals. -/
theorem accepted_end (h : Delivers rd r s) {fuel : Nat} (hfuel : s.length + 2 ≤ fuel)
    {t : AstRoot} (hok : parse rd r filename fuel = .ok t) :
    let left := (parseFrom (bufferSource rd fuel) (Buffer.init r) filename fuel).2.source
    Holds rd left [] ∧ (modeAfter .text s).atEnd = .text ∨
      (∃ rest, Holds rd left (nul :: rest)) ∧ modeAfter .text s = .stopped := by
  obtain ⟨hrun, n, hstands⟩ := parse_stands h filename
    (Nat.lt_of_lt_of_le (Nat.lt_add_of_pos_right Nat.two_pos) hfuel)
  have hend := answer_end (CorrectnessLemmas.tokens_answer filename s hfuel) (hrun.symm.trans hok)
  obtain ⟨next, after, hsuffix, rfl, _, _, htoks⟩ := stands_place hstands
    (parseDocument_returns (peekSymbol_cached (bufferSource rd fuel) fuel) fuel
      (Parser.init filename (Buffer.init r)) t _ (Prod.ext hok rfl))
  have hholds := hstands.holds
  have hmem := hsuffix.subset List.mem_cons_self
  have hmode := modeAfter_placed hmem
  have hnul : (s.drop next.offset).getD 0 nul = nul := by
    rw [htoks] at hend
    refine (lexeme_eof ?_).1
    rw [← placed_lexeme hmem]
    exact hend
  obtain ⟨rest, hrest⟩ : ∃ rest, s.drop next.offset = rest := ⟨_, rfl⟩
  rw [hrest] at hholds hmode hnul
  cases rest with
  | nil => exact Or.inl ⟨hholds, hmode⟩
  | cons c cs =>
    obtain rfl : c = nul := hnul
    refine Or.inr ⟨⟨cs, hholds⟩, ?_⟩
    have hstopped : modeAfter .text (nul :: cs) = .stopped := modeAfter_stopped cs
    rw [hstopped] at hmode
    generalize modeAfter .text s = mode at hmode
    cases mode with
    | stopped => rfl
    | _ => cases hmode

/-- The mode at the end of an accepted stream. -/
theorem accepted_mode (h : Delivers rd r s) {t : AstRoot}
    (ht : Settles (parse rd r filename) (.ok t)) :
    (modeAfter .text s).atEnd = .text ∨ modeAfter .text s = .stopped := by
  obtain ⟨enough, hok⟩ := ht
  have hend := accepted_end h (Nat.le_max_left (s.length + 2) enough) (hok _ (Nat.le_max_right _ _))
  exact hend.imp And.right And.right

/-- A byte that no token has outside strings. -/
def percent : UInt8 := Char.toUInt8 '%'

/-- A line break and two bytes of no token. -/
def noise : List UInt8 := [lineFeed, percent, percent]

theorem modeAfter_noise {mode : Mode} (h : mode ≠ .stopped) :
    modeAfter mode noise = .wrong ∨ ∃ delim, modeAfter mode noise = .string delim := by
  have hstring : ∀ delim, modeAfter (.string delim) [percent, percent] = .wrong ∨
      modeAfter (.string delim) [percent, percent] = .string delim := by
    intro delim
    by_cases hdelim : percent = delim
    · subst hdelim
      exact Or.inl rfl
    · have hnext : Mode.next (.string delim) percent = .string delim := by
        rw [Mode.next, if_neg hdelim, if_neg (by decide)]
      rw [modeAfter_cons, modeAfter_cons, hnext, hnext]
      exact Or.inr rfl
  cases mode with
  | text => exact Or.inl rfl
  | comment => exact Or.inl rfl
  | string delim =>
    by_cases hdelim : lineFeed = delim
    · subst hdelim
      exact Or.inl rfl
    · have hnext : Mode.next (.string delim) lineFeed = .string delim := by
        rw [Mode.next, if_neg hdelim, if_neg (by decide)]
      rw [noise, modeAfter_cons, hnext]
      exact (hstring delim).imp_right fun h => ⟨delim, h⟩
  | escaped delim => exact (hstring delim).imp_right fun h => ⟨delim, h⟩
  | stopped => exact absurd rfl h
  | wrong => exact Or.inl rfl

/-- Every text that is not stopped has a longer one that is no document. -/
theorem noise_rejected {p : List UInt8} (hp : modeAfter .text p ≠ .stopped)
    (h : Delivers rd r (p ++ noise)) (t : AstRoot) : ¬Settles (parse rd r filename) (.ok t) := by
  intro ht
  have hmode := accepted_mode h ht
  rw [modeAfter_append] at hmode
  rcases modeAfter_noise hp with hwrong | ⟨delim, hstring⟩
  · rw [hwrong] at hmode
    rcases hmode with hmode | hmode <;> cases hmode
  · rw [hstring] at hmode
    rcases hmode with hmode | hmode <;> cases hmode

/-- A text is stopped by its first NUL byte outside string literals. -/
theorem stopped_split {mode : Mode} {s : List UInt8} (hmode : mode ≠ .stopped)
    (h : modeAfter mode s = .stopped) :
    ∃ text rest, s = text ++ nul :: rest ∧
      (modeAfter mode text = .text ∨ modeAfter mode text = .comment) := by
  induction s generalizing mode with
  | nil => exact absurd h hmode
  | cons c cs ih =>
    by_cases hnext : mode.next c = .stopped
    · have hc : c = nul ∧ (mode = .text ∨ mode = .comment) := by
        cases mode with
        | text =>
          rw [Mode.next] at hnext
          split_ifs at hnext with hnul
          exact ⟨hnul, Or.inl rfl⟩
        | comment =>
          rw [Mode.next] at hnext
          split_ifs at hnext with hnul
          exact ⟨hnul, Or.inr rfl⟩
        | string delim =>
          rw [Mode.next] at hnext
          split_ifs at hnext
        | escaped delim => cases hnext
        | stopped => exact absurd rfl hmode
        | wrong => cases hnext
      obtain ⟨rfl, hmode'⟩ := hc
      exact ⟨[], cs, rfl, hmode'⟩
    · obtain ⟨text, rest, rfl, hend⟩ := ih hnext h
      exact ⟨c :: text, rest, rfl, hend⟩

end WholeStreamLemmas

open WholeStreamLemmas

/-! ## The whole stream -/

/-- Every NUL byte of the stream is in a string literal. -/
def NulInStrings (s : List UInt8) : Prop :=
  ∀ text rest, s = text ++ nul :: rest →
    ∃ delim, modeAfter .text text = .string delim ∨ modeAfter .text text = .escaped delim

/-- Accepting `s` with the tree `t`, the parser has read the whole of it. -/
structure ReadWhole {ρ : Type} (rd : StreamReader ρ) (r : ρ) (s filename : List UInt8)
    (t : AstRoot) : Prop where
  /-- Nothing is left, in the buffer or in the reader. -/
  consumed : ∃ enough, ∀ fuel, enough ≤ fuel →
    Holds rd (parseFrom (bufferSource rd fuel) (Buffer.init r) filename fuel).2.source []
  /-- No part of the stream fixes the tree. -/
  prefixes : ∀ p, p <+: s → p ≠ s →
    ¬∀ s', p <+: s' → Settles (parse stdinReader s' filename) (.ok t)

namespace WholeStreamLemmas

variable {ρ : Type} {rd : StreamReader ρ} {r : ρ} {s filename : List UInt8} {t : AstRoot}

theorem nulInStrings_iff (h : Delivers rd r s) (ht : Settles (parse rd r filename) (.ok t)) :
    NulInStrings s ↔ modeAfter .text s ≠ .stopped := by
  constructor
  · intro hnul hstopped
    obtain ⟨text, rest, hs, hmode⟩ := stopped_split (show Mode.text ≠ .stopped from nofun) hstopped
    obtain ⟨delim, hmode'⟩ := hnul text rest hs
    rcases hmode with hmode | hmode <;> rcases hmode' with hmode' | hmode' <;>
      cases hmode.symm.trans hmode'
  · intro hstopped text rest hs
    have hmode := accepted_mode h ht
    rw [hs, modeAfter_append] at hstopped hmode
    generalize modeAfter .text text = mode at hstopped hmode ⊢
    cases mode with
    | text => exact absurd (modeAfter_stopped rest) hstopped
    | comment => exact absurd (modeAfter_stopped rest) hstopped
    | string delim => exact ⟨delim, Or.inl rfl⟩
    | escaped delim => exact ⟨delim, Or.inr rfl⟩
    | stopped => exact absurd (modeAfter_stopped _) hstopped
    | wrong =>
      rw [modeAfter_wrong] at hmode
      rcases hmode with hmode | hmode <;> cases hmode

end WholeStreamLemmas

/-- The parser has read the whole of a stream it accepts exactly if every NUL
byte of it is in a string literal. -/
theorem whole_stream_iff {ρ : Type} (rd : StreamReader ρ) (r : ρ) (s filename : List UInt8)
    (t : AstRoot) (h : Delivers rd r s) (ht : Settles (parse rd r filename) (.ok t)) :
    ReadWhole rd r s filename t ↔ NulInStrings s := by
  rw [nulInStrings_iff h ht]
  obtain ⟨enough, hok⟩ := ht
  constructor
  · intro ⟨⟨enough', hconsumed⟩, _⟩ hstopped
    obtain ⟨fuel, hfuel⟩ : ∃ fuel, fuel = max (s.length + 2) (max enough enough') := ⟨_, rfl⟩
    have hholds := hconsumed fuel (by omega)
    have hlong : s.length + 2 ≤ fuel := by omega
    rcases accepted_end h hlong (hok fuel (by omega)) with ⟨_, htext⟩ | ⟨⟨rest, hleft⟩, _⟩
    · rw [hstopped] at htext
      cases htext
    · cases holds_unique hholds hleft
  · intro hmode
    refine ⟨⟨max (s.length + 2) enough, fun fuel hfuel => ?_⟩, ?_⟩
    · rcases accepted_end h (by omega) (hok fuel (by omega)) with ⟨hleft, _⟩ | ⟨_, hstopped⟩
      · exact hleft
      · exact absurd hstopped hmode
    · rintro p ⟨more, rfl⟩ _ hall
      refine noise_rejected (fun hstopped => hmode ?_) (stdinReader_delivers _) t
        (hall (p ++ noise) (List.prefix_append _ _))
      rw [modeAfter_append, hstopped, modeAfter_stopped]

/-- `INCLUDE "x"`, where `x` is a NUL byte. -/
def includeNul : List UInt8 := includeKeyword ++ [spaceByte, doubleQuote, nul, doubleQuote]

/-- Its tree. -/
def includeNulRoot : AstRoot :=
  { origin := ⟨[], 1, 0⟩, includes := [⟨⟨[], 1, 0⟩, [nul]⟩], space := ⟨[], []⟩,
    structDecls := [], mapDecls := [], encoDecls := [] }

theorem whole_stream_iff_include :
    ReadWhole stdinReader includeNul includeNul [] includeNulRoot := by
  have htokens : tokens [] includeNul =
      [⟨.fixed .includeKw, ⟨[], 1, 0⟩, ⟨[], 1, 7⟩⟩, ⟨.string [nul], ⟨[], 1, 8⟩, ⟨[], 1, 11⟩⟩,
        ⟨.eof, ⟨[], 1, 11⟩, ⟨[], 1, 11⟩⟩] := by decide
  have ht := (CorrectnessLemmas.settles_iff_derives (stdinReader_delivers includeNul) []
    includeNulRoot).mpr (by
    rw [htokens]
    exact ⟨_, [_], _, .cons ⟨_, _, ⟨rfl, rfl⟩, (), _, ⟨_, rfl, rfl⟩, _, _, ⟨_, rfl, rfl⟩, rfl, rfl⟩
      (.nil _), _, _, Or.inr ⟨rfl, rfl⟩, [], _, .nil _, (), _, ⟨rfl, rfl⟩, rfl, rfl⟩)
  refine (whole_stream_iff stdinReader includeNul includeNul [] _
    (stdinReader_delivers _) ht).mpr ?_
  exact (nulInStrings_iff (stdinReader_delivers _) ht).mpr (by decide)

/-- The tree of a document with nothing in it. -/
def emptyRoot : AstRoot :=
  { origin := ⟨[], 1, 0⟩, includes := [], space := ⟨[], []⟩, structDecls := [], mapDecls := [],
    encoDecls := [] }

theorem nul_accepted (rest : List UInt8) :
    Settles (parse stdinReader (nul :: rest) []) (.ok emptyRoot) := by
  have htokens : tokens [] (nul :: rest) = [⟨.eof, ⟨[], 1, 0⟩, ⟨[], 1, 0⟩⟩] := rfl
  refine (CorrectnessLemmas.settles_iff_derives (stdinReader_delivers _) [] _).mpr ?_
  rw [htokens]
  exact ⟨_, [], _, .nil _, _, _, Or.inr ⟨rfl, rfl⟩, [], _, .nil _, (), _, ⟨rfl, rfl⟩, rfl, rfl⟩

/-- After a NUL byte a declaration is silently dropped: the stream is accepted
as an empty document, it has not been read to its end, and every stream that
starts with a NUL byte gives the same tree. -/
theorem declaration_dropped :
    let s := nul :: (structKeyword ++ bytes [' ', 'A', '{', '}'])
    Delivers stdinReader s s ∧ Settles (parse stdinReader s []) (.ok emptyRoot) ∧
      (∀ s', [nul] <+: s' → Settles (parse stdinReader s' []) (.ok emptyRoot)) ∧
      ¬ReadWhole stdinReader s s [] emptyRoot := by
  intro s
  have hall : ∀ s', [nul] <+: s' → Settles (parse stdinReader s' []) (.ok emptyRoot) := by
    rintro _ ⟨rest, rfl⟩
    exact nul_accepted rest
  exact ⟨stdinReader_delivers s, nul_accepted _, hall,
    fun h => h.prefixes [nul] ⟨_, rfl⟩ (by decide) hall⟩

end Ian.Happy
