import Ian.Happy.Layout
import Ian.Happy.WholeStream

/-!
# Blanks and comments

Blanks and comments say where a token ends and nothing else: at every point that
the lexer reads as text or in a comment, a gap of them can be replaced by any
other gap (`spacing_ignored`). That leaves out the string literals, and what is
after a NUL byte or a byte that no token starts with. A stream is cut there by
the mode it is in (`Happy/WholeStream.lean`), not by its tokens. What is before
such a point gives the same tokens whatever comes after it (`lexed_append`).
-/

namespace Ian.Happy

open Ian.Lib Run

/-- Whether the bytes are blanks and comments only, and if so whether a comment
is open after them. The flag says that one is open before them. -/
def gapAfter : Bool → List UInt8 → Option Bool
  | comment, [] => some comment
  | comment, c :: cs =>
    if c = lineFeed ∨ c = carriageReturn then gapAfter false cs
    else if comment then if c = nul then none else gapAfter true cs
    else if c = spaceByte ∨ c = tab then gapAfter false cs
    else if c = commentMark then gapAfter true cs
    else none

namespace SpacingLemmas

open LexingLemmas ScanningLemmas PlacingLemmas PrintingLemmas WholeStreamLemmas

variable {comment comment' : Bool} {pos : DocumentPosition} {b g v x y text : List UInt8}
  {c : UInt8}

/-! ## The lexemes of a text -/

/-- The lexemes of a text, wherever it stands. -/
def lexed (text : List UInt8) : List Lexeme := (lex noOrigin text).map Token.lexeme

/-- The text from its first token on; the flag says that it starts in a comment. -/
def unblank (comment : Bool) (text : List UInt8) : List UInt8 :=
  text.drop (skipBlank comment noOrigin text).2

theorem lex_lexeme (pos : DocumentPosition) (text : List UInt8) :
    ∃ stop, (lex pos text).map Token.lexeme = (lexeme (unblank false text)).1 ::
      if (lexeme (unblank false text)).2 = 0 then []
      else (lex stop ((unblank false text).drop (lexeme (unblank false text)).2)).map
        Token.lexeme := by
  refine ⟨(skipBlank false pos text).1.over
    ((unblank false text).take (lexeme (unblank false text)).2), ?_⟩
  have hrest : text.drop (skipBlank false pos text).2 = unblank false text := by
    rw [skipBlank_length false pos noOrigin, unblank]
  rw [lex_eq, hrest]
  split
  · next hlen =>
    rw [if_pos hlen]
    rfl
  · next hlen =>
    rw [if_neg hlen]
    rfl

/-- Positions do not matter. -/
theorem lex_lexed (pos : DocumentPosition) (text : List UInt8) :
    (lex pos text).map Token.lexeme = lexed text := by
  induction hlength : text.length using Nat.strong_induction_on generalizing pos text with
  | _ n ih =>
    subst hlength
    obtain ⟨stop, hlex⟩ := lex_lexeme pos text
    obtain ⟨stop', hlex'⟩ := lex_lexeme noOrigin text
    rw [hlex, lexed, hlex']
    split
    · rfl
    · next hlen =>
      have hle : (unblank false text).length ≤ text.length := by
        rw [unblank, List.length_drop]
        exact Nat.sub_le _ _
      have hle' := lexeme_le (unblank false text)
      have hshort : ((unblank false text).drop (lexeme (unblank false text)).2).length <
          text.length := by
        rw [List.length_drop]
        omega
      rw [ih _ hshort stop _ rfl, ih _ hshort stop' _ rfl]

theorem lexed_eq (text : List UInt8) : lexed text = (lexeme (unblank false text)).1 ::
    if (lexeme (unblank false text)).2 = 0 then []
    else lexed ((unblank false text).drop (lexeme (unblank false text)).2) := by
  obtain ⟨stop, hlex⟩ := lex_lexeme noOrigin text
  rw [lex_lexed, lex_lexed] at hlex
  exact hlex

theorem unblank_token (hc : isBlank c = false) (cs : List UInt8) :
    unblank false (c :: cs) = c :: cs := by
  rw [unblank, skipBlank_stop _ hc, List.drop_zero]

/-- Blanks before the first token are skipped once. -/
theorem unblank_idem (comment : Bool) (text : List UInt8) :
    unblank false (unblank comment text) = unblank comment text := by
  have hidem := congrArg Prod.snd (skipBlank_idem comment noOrigin text)
  rw [skipBlank_length false _ noOrigin] at hidem
  rw [unblank, unblank, hidem, List.drop_zero]

theorem lexed_unblank (text : List UInt8) : lexed (unblank false text) = lexed text := by
  rw [lexed_eq, unblank_idem, ← lexed_eq]

/-! ## Gaps -/

theorem skipBlank_gap (h : gapAfter comment g = some comment') (v : List UInt8) :
    (skipBlank comment pos (g ++ v)).2 = g.length + (skipBlank comment' noOrigin v).2 := by
  induction g generalizing comment pos with
  | nil =>
    obtain rfl : comment = comment' := Option.some.inj h
    rw [List.nil_append, List.length_nil, Nat.zero_add, skipBlank_length]
  | cons c cs ih =>
    rw [gapAfter] at h
    rw [List.cons_append, skipBlank, List.length_cons, Nat.add_right_comm]
    split at h
    · next hc =>
      rcases hc with rfl | rfl
      · exact congrArg Nat.succ (ih h)
      · exact congrArg Nat.succ (ih h)
    next hc =>
    obtain ⟨hlf, hcr⟩ := not_or.mp hc
    rw [if_neg hlf, if_neg hcr]
    split at h
    · next hcomment =>
      split at h
      · cases h
      · next hnul =>
        rw [if_pos ⟨hcomment, hnul⟩]
        exact congrArg Nat.succ (ih h)
    next hcomment =>
    rw [if_neg fun hboth => hcomment hboth.1]
    split at h
    · next hspace =>
      rw [if_pos hspace]
      exact congrArg Nat.succ (ih h)
    next hspace =>
    split at h
    · next hmark =>
      rw [if_neg hspace, if_pos hmark]
      exact congrArg Nat.succ (ih h)
    · cases h

/-- A gap is skipped. -/
theorem unblank_gap (h : gapAfter comment g = some comment') (v : List UInt8) :
    unblank comment (g ++ v) = unblank comment' v := by
  rw [unblank, skipBlank_gap h, ← List.drop_drop, List.drop_left, unblank]

/-- A gap starts with a blank. -/
theorem gap_blank {cs : List UInt8} (h : gapAfter false (c :: cs) = some comment) :
    isBlank c = true := by
  rw [gapAfter] at h
  split at h
  · next hc => rcases hc with rfl | rfl <;> rfl
  rw [if_neg Bool.false_ne_true] at h
  split at h
  · next hc => rcases hc with rfl | rfl <;> rfl
  split at h
  · next hc =>
    subst hc
    rfl
  · cases h

/-- A text that ends outside comments and string literals is a gap, or has one
before its first token. -/
theorem gap_or_token (h : modeAfter (blankMode comment) text = .text) :
    gapAfter comment text = some false ∨ ∃ b c cs, text = b ++ c :: cs ∧
      gapAfter comment b = some false ∧ isBlank c = false ∧ modeAfter .text (c :: cs) = .text := by
  induction text generalizing comment with
  | nil =>
    cases comment with
    | false => exact Or.inl rfl
    | true => cases h
  | cons c cs ih =>
    -- One blank more in front.
    have hmore : ∀ {d : Bool}, (∀ b, gapAfter comment (c :: b) = gapAfter d b) →
        modeAfter (blankMode d) cs = .text →
        gapAfter comment (c :: cs) = some false ∨ ∃ b e es, c :: cs = b ++ e :: es ∧
          gapAfter comment b = some false ∧ isBlank e = false ∧
            modeAfter .text (e :: es) = .text := by
      intro d hgap hmode
      rcases ih hmode with hrest | ⟨b, e, es, rfl, hb, he, hes⟩
      · exact Or.inl ((hgap cs).trans hrest)
      · exact Or.inr ⟨c :: b, e, es, rfl, (hgap b).trans hb, he, hes⟩
    by_cases hline : c = lineFeed ∨ c = carriageReturn
    · refine hmore (d := false) (fun b => by rw [gapAfter, if_pos hline]) ?_
      rcases hline with rfl | rfl
      · cases comment <;> exact h
      · cases comment <;> exact h
    cases comment with
    | true =>
      have hnul : c ≠ nul := by
        rintro rfl
        exact nomatch (modeAfter_stopped cs).symm.trans h
      have hnext : Mode.next .comment c = .comment := by
        rw [Mode.next, if_neg hnul, if_neg hline]
      rw [blankMode, cond_true, modeAfter_cons, hnext] at h
      refine hmore (d := true) (fun b => ?_) h
      rw [gapAfter, if_neg hline, if_pos rfl, if_neg hnul]
    | false =>
      by_cases hspace : c = spaceByte ∨ c = tab
      · refine hmore (d := false) (fun b => ?_) ?_
        · rw [gapAfter, if_neg hline, if_neg Bool.false_ne_true, if_pos hspace]
        · rcases hspace with rfl | rfl
          · exact h
          · exact h
      by_cases hmark : c = commentMark
      · subst hmark
        exact hmore (d := true) (fun b => rfl) h
      · refine Or.inr ⟨[], c, cs, rfl, rfl, ?_, h⟩
        obtain ⟨hlf, hcr⟩ := not_or.mp hline
        simp [isBlank, hlf, hcr, not_or.mp hspace, hmark]

/-! ## Tokens before a gap -/

/-- A run of bytes ends where a byte outside the class comes after it. -/
theorem takeWhile_ends {f : UInt8 → Bool} (hc : f c = false) (cs x : List UInt8) :
    (cs ++ c :: x).takeWhile f = cs.takeWhile f := by
  induction cs with
  | nil => simp [hc]
  | cons d cs ih =>
    rw [List.cons_append, List.takeWhile_cons, List.takeWhile_cons, ih]

theorem blank_ends (hc : isBlank c = true) :
    isWordByte c = false ∧ isDigit c = false ∧ c ≠ namespaceSepMark := by
  simp only [isBlank, Bool.or_eq_true, beq_iff_eq] at hc
  rcases hc with (((rfl | rfl) | rfl) | rfl) | rfl <;> decide

theorem stringRest_append {delim : UInt8} {escaped : Bool} {cs : List UInt8}
    {r : AstString × Nat} (h : stringRest delim escaped cs = some r) (x : List UInt8) :
    stringRest delim escaped (cs ++ x) = some r := by
  induction cs generalizing escaped r with
  | nil => cases h
  | cons c cs ih =>
    rw [List.cons_append]
    cases escaped with
    | true =>
      rw [stringRest] at h ⊢
      obtain ⟨r', hrest, rfl⟩ := Option.map_eq_some_iff.mp h
      rw [ih hrest, Option.map_some]
    | false =>
      rw [stringRest] at h ⊢
      split at h
      · next hc => rw [if_pos hc, h]
      next hc =>
      rw [if_neg hc]
      split at h
      · next hslash =>
        obtain ⟨r', hrest, rfl⟩ := Option.map_eq_some_iff.mp h
        rw [if_pos hslash, ih hrest, Option.map_some]
      · next hslash =>
        obtain ⟨r', hrest, rfl⟩ := Option.map_eq_some_iff.mp h
        rw [if_neg hslash, ih hrest, Option.map_some]

/-- A literal that is not closed goes on to the end. -/
theorem string_open {delim : UInt8} {escaped : Bool} {cs : List UInt8}
    (h : stringRest delim escaped cs = none) :
    ∃ escaped' : Bool, modeAfter (if escaped then .escaped delim else .string delim) cs =
      if escaped' then .escaped delim else .string delim := by
  induction cs generalizing escaped with
  | nil => exact ⟨escaped, rfl⟩
  | cons c cs ih =>
    cases escaped with
    | true => exact ih (Option.map_eq_none_iff.mp h)
    | false =>
      rw [stringRest] at h
      split at h
      · cases h
      next hc =>
      split at h
      · next hslash =>
        have hnext : Mode.next (.string delim) c = .escaped delim := by
          rw [Mode.next, if_neg hc, if_pos hslash]
        rw [if_neg Bool.false_ne_true, modeAfter_cons, hnext]
        exact ih (show stringRest delim true cs = none from Option.map_eq_none_iff.mp h)
      · next hslash =>
        have hnext : Mode.next (.string delim) c = .string delim := by
          rw [Mode.next, if_neg hc, if_neg hslash]
        rw [if_neg Bool.false_ne_true, modeAfter_cons, hnext]
        exact ih (show stringRest delim false cs = none from Option.map_eq_none_iff.mp h)

/-- What a token is does not depend on what comes after a blank. -/
theorem lexeme_ends {d : UInt8} {cs : List UInt8} (hmode : modeAfter .text (c :: cs) = .text)
    (hd : isBlank d = true) (x : List UInt8) : lexeme (c :: (cs ++ d :: x)) = lexeme (c :: cs) := by
  obtain ⟨hword, hdigit, hsep⟩ := blank_ends hd
  unfold lexeme
  dsimp only
  rw [takeWhile_ends hdigit, takeWhile_ends hword]
  split
  · rfl
  next hnul =>
  split
  · -- A number: the byte after it is a dot or not.
    rw [List.drop_append_of_le_length (List.takeWhile_prefix isDigit).length_le]
    cases cs.drop (cs.takeWhile isDigit).length with
    | nil =>
      rw [List.nil_append, List.head?_cons, List.head?_nil, if_neg, if_neg]
      · nofun
      · exact fun h => hsep (Option.some.inj h)
    | cons e es => rw [List.cons_append, List.head?_cons, List.head?_cons]
  cases hsign : signSymbol c with
  | some symbol => rfl
  | none =>
    dsimp only
    split
    · next hquote =>
      cases hrest : stringRest c false cs with
      | some r => rw [stringRest_append hrest]
      | none =>
        obtain ⟨escaped, hopen⟩ := string_open hrest
        have hfirst : Mode.next .text c = .string c := by
          rcases hquote with rfl | rfl <;> rfl
        rw [modeAfter_cons, hfirst] at hmode
        have hboth := hopen.symm.trans hmode
        cases escaped <;> cases hboth
    · rfl

/-! ## Joining two texts -/

/-- What is before a point outside comments and string literals gives the same
tokens whatever comes after a blank: all there is before it, or some of it up to
a bad token. -/
theorem lexed_text {u : List UInt8} (hmode : modeAfter .text u = .text) :
    (∃ toks, lexed u = toks ++ [.eof] ∧
      ∀ d x, isBlank d = true → lexed (u ++ d :: x) = toks ++ lexed (d :: x)) ∨
    ∀ d x, isBlank d = true → lexed (u ++ d :: x) = lexed u := by
  induction hlength : u.length using Nat.strong_induction_on generalizing u with
  | _ n ih =>
    subst hlength
    have hstart : modeAfter (blankMode false) u = .text := hmode
    rcases gap_or_token hstart with hgap | ⟨b, c, cs, rfl, hb, hc, hcs⟩
    · have hskip : ∀ y, lexed (u ++ y) = lexed y := by
        intro y
        rw [← lexed_unblank, unblank_gap hgap, lexed_unblank]
      refine Or.inl ⟨[], ?_, fun d x _ => hskip (d :: x)⟩
      rw [← List.append_nil u, hskip]
      rfl
    have hfirst : ∀ y, unblank false (b ++ c :: y) = c :: y := by
      intro y
      rw [unblank_gap hb, unblank_token hc]
    have hlexed : ∀ y, lexed (b ++ c :: y) = (lexeme (c :: y)).1 ::
        if (lexeme (c :: y)).2 = 0 then [] else lexed ((c :: y).drop (lexeme (c :: y)).2) := by
      intro y
      rw [lexed_eq, hfirst]
    by_cases hlen : (lexeme (c :: cs)).2 = 0
    · refine Or.inr fun d x hd => ?_
      rw [List.append_assoc, List.cons_append, hlexed, hlexed, lexeme_ends hcs hd, if_pos hlen,
        if_pos hlen]
    have hle := lexeme_le (c :: cs)
    have hshort : ((c :: cs).drop (lexeme (c :: cs)).2).length < (b ++ c :: cs).length := by
      rw [List.length_drop, List.length_append]
      omega
    have hrest : ∀ d x, isBlank d = true → lexed ((b ++ c :: cs) ++ d :: x) =
        (lexeme (c :: cs)).1 :: lexed ((c :: cs).drop (lexeme (c :: cs)).2 ++ d :: x) := by
      intro d x hd
      rw [List.append_assoc, List.cons_append, hlexed, lexeme_ends hcs hd, if_neg hlen,
        ← List.cons_append, List.drop_append_of_le_length hle]
    rcases ih _ hshort ((modeAfter_lexeme hlen).symm.trans hcs) rfl with ⟨toks, hall, hthen⟩ | hthen
    · refine Or.inl ⟨(lexeme (c :: cs)).1 :: toks, ?_, fun d x hd => ?_⟩
      · rw [hlexed, if_neg hlen, hall, List.cons_append]
      · rw [hrest d x hd, hthen d x hd, List.cons_append]
    · refine Or.inr fun d x hd => ?_
      rw [hrest d x hd, hthen d x hd, hlexed, if_neg hlen]

/-- A comment is entered at its mark and left at the end of the line. -/
theorem next_comment {mode : Mode} (h : mode.next c = .comment) :
    mode = .text ∧ c = commentMark ∨
      mode = .comment ∧ c ≠ nul ∧ ¬(c = lineFeed ∨ c = carriageReturn) := by
  cases mode with
  | text =>
    rw [Mode.next] at h
    split_ifs at h with hnul hmark
    exact Or.inl ⟨rfl, hmark⟩
  | comment =>
    rw [Mode.next] at h
    split_ifs at h with hnul hline
    exact Or.inr ⟨rfl, hnul, hline⟩
  | string delim =>
    rw [Mode.next] at h
    split_ifs at h
  | escaped delim => cases h
  | stopped => cases h
  | wrong => cases h

/-- The last comment of a text that ends in one. -/
theorem last_comment {mode : Mode} {u : List UInt8} (h : modeAfter mode u = .comment) :
    mode = .comment ∧ gapAfter true u = some true ∨ ∃ u' g, u = u' ++ commentMark :: g ∧
      modeAfter mode u' = .text ∧ gapAfter true g = some true := by
  induction u generalizing mode with
  | nil => exact Or.inl ⟨h, rfl⟩
  | cons c cs ih =>
    rcases ih h with ⟨hnext, hgap⟩ | ⟨u', g, rfl, hu', hg⟩
    · rcases next_comment hnext with ⟨rfl, rfl⟩ | ⟨rfl, hnul, hline⟩
      · exact Or.inr ⟨[], cs, rfl, rfl, hgap⟩
      · refine Or.inl ⟨rfl, ?_⟩
        rw [gapAfter, if_neg hline, if_pos rfl, if_neg hnul]
        exact hgap
    · exact Or.inr ⟨c :: u', g, rfl, hu', hg⟩

/-- What comes after a text does not go on with its last token: it starts with a
blank, or the text ends in a comment. -/
def Parts (comment : Bool) (x : List UInt8) : Prop :=
  comment = true ∨ x.head?.any isBlank = true

/-- `lexed_text` where a comment may be open. -/
theorem lexed_append {u : List UInt8} (hmode : modeAfter .text u = blankMode comment) :
    (∃ toks, lexed u = toks ++ [.eof] ∧
      ∀ x, Parts comment x → lexed (u ++ x) = toks ++ lexed (unblank comment x)) ∨
    ∀ x, Parts comment x → lexed (u ++ x) = lexed u := by
  cases comment with
  | false =>
    have hhead : ∀ {x}, Parts false x → ∃ d ds, x = d :: ds ∧ isBlank d = true := by
      rintro (_ | ⟨d, ds⟩) (h | h)
      · cases h
      · cases h
      · cases h
      · exact ⟨d, ds, rfl, h⟩
    rcases lexed_text hmode with ⟨toks, hall, hthen⟩ | hthen
    · refine Or.inl ⟨toks, hall, fun x hx => ?_⟩
      obtain ⟨d, ds, rfl, hd⟩ := hhead hx
      rw [hthen d ds hd, lexed_unblank]
    · refine Or.inr fun x hx => ?_
      obtain ⟨d, ds, rfl, hd⟩ := hhead hx
      exact hthen d ds hd
  | true =>
    obtain ⟨habsurd, -⟩ | ⟨u', g, rfl, hu', hg⟩ := last_comment hmode
    · cases habsurd
    have hmark : gapAfter false (commentMark :: g) = some true := hg
    have hskip : ∀ x, lexed (commentMark :: g ++ x) = lexed (unblank true x) := by
      intro x
      rw [← lexed_unblank, unblank_gap hmark]
    have hassoc : ∀ x, u' ++ commentMark :: g ++ x = u' ++ commentMark :: (g ++ x) := by
      intro x
      rw [List.append_assoc, List.cons_append]
    rcases lexed_text hu' with ⟨toks, _, hthen⟩ | hthen
    · refine Or.inl ⟨toks, ?_, fun x _ => ?_⟩
      · rw [hthen commentMark g rfl, ← List.append_nil (commentMark :: g), hskip]
        rfl
      · rw [hassoc, hthen commentMark _ rfl, ← List.cons_append, hskip]
    · refine Or.inr fun x _ => ?_
      rw [hassoc, hthen commentMark _ rfl, hthen commentMark g rfl]

/-- A gap does not go on with the token before it. -/
theorem gap_parts (h : gapAfter comment g = some false) (hne : g ≠ []) (v : List UInt8) :
    Parts comment (g ++ v) := by
  cases comment with
  | true => exact Or.inl rfl
  | false =>
    obtain ⟨c, cs, rfl⟩ := List.exists_cons_of_ne_nil hne
    exact Or.inr (gap_blank h)

end SpacingLemmas

open SpacingLemmas LayoutLemmas

/-- At every point of a stream that the lexer reads as text or in a comment (not
in a string literal, nor after a NUL byte or a byte that no token starts with), a
gap can be replaced by any other: the stream is read alike. -/
theorem spacing_ignored {ρ ρ' : Type} (rd : StreamReader ρ) (r : ρ) (rd' : StreamReader ρ')
    (r' : ρ') (comment : Bool) (u g g' v filename : List UInt8)
    (hmode : modeAfter .text u = WholeStreamLemmas.blankMode comment)
    (hg : gapAfter comment g = some false) (hg' : gapAfter comment g' = some false)
    (hne : g ≠ []) (hne' : g' ≠ []) (h : Delivers rd r (u ++ (g ++ v)))
    (h' : Delivers rd' r' (u ++ (g' ++ v))) :
    ReadAlike rd r (u ++ (g ++ v)) filename rd' r' (u ++ (g' ++ v)) filename := by
  refine readAlike_of_lexemes h h' ?_
  rw [tokens, tokens, lex_lexed, lex_lexed]
  rcases lexed_append hmode with ⟨toks, _, hthen⟩ | hthen
  · rw [hthen _ (gap_parts hg hne v), hthen _ (gap_parts hg' hne' v), unblank_gap hg,
      unblank_gap hg']
  · rw [hthen _ (gap_parts hg hne v), hthen _ (gap_parts hg' hne' v)]

/-- `INCLUDE#`, a line end and a quoted string against `INCLUDE`, a space and the string. -/
theorem spacing_ignored_comment :
    ReadAlike stdinReader includeExample includeExample [] stdinReader
      (includeKeyword ++ ([commentMark, lineFeed] ++ [doubleQuote, Char.toUInt8 'a', doubleQuote]))
      (includeKeyword ++ ([commentMark, lineFeed] ++ [doubleQuote, Char.toUInt8 'a', doubleQuote]))
      [] :=
  spacing_ignored stdinReader _ stdinReader _ false includeKeyword [spaceByte]
    [commentMark, lineFeed] [doubleQuote, Char.toUInt8 'a', doubleQuote] [] (by decide) rfl rfl
    (List.cons_ne_nil _ _) (List.cons_ne_nil _ _) (stdinReader_delivers _) (stdinReader_delivers _)

end Ian.Happy
