import Ian.Happy.Spacing

/-!
# Documents one after the other

Two documents with a gap between them are a document exactly if the first one has
nothing after its includes or the second one has nothing before its declarations,
and its tree has the parts of both (`documents_join`).
-/

namespace Ian.Happy

open Ian.Lib Run Rule

/-- The parts of both trees, those of `t` first. -/
def AstRoot.join (t t' : AstRoot) : AstRoot :=
  { origin := t.origin
    includes := t.includes ++ t'.includes
    space := if t.space = ⟨[], []⟩ then t'.space else t.space
    structDecls := t.structDecls ++ t'.structDecls
    mapDecls := t.mapDecls ++ t'.mapDecls
    encoDecls := t.encoDecls ++ t'.encoDecls }

/-- There is nothing after the includes. -/
structure AstRoot.OnlyIncludes (t : AstRoot) : Prop where
  space : t.space = ⟨[], []⟩
  structs : t.structDecls = []
  mappings : t.mapDecls = []
  encodings : t.encoDecls = []

/-- There is nothing before the declarations. -/
structure AstRoot.OnlyDecls (t : AstRoot) : Prop where
  includes : t.includes = []
  space : t.space = ⟨[], []⟩

namespace JoiningLemmas

open LexingLemmas ScanningLemmas DecidingLemmas PrintingLemmas CorrectnessLemmas PlacingLemmas
  WholeStreamLemmas LayoutLemmas SpacingLemmas

/-! ## An accepted stream -/

section

variable {ρ : Type} {rd : StreamReader ρ} {r : ρ} {s filename : List UInt8} {t : AstRoot}

/-- An accepted stream is a document up to its last token. -/
theorem accepted_left (h : Delivers rd r s) (ht : Settles (parse rd r filename) (.ok t)) :
    ∃ tok, documentRule filename (tokens filename s) t [tok] := by
  obtain ⟨enough, hok⟩ := ht
  obtain ⟨fuel, hlong, hfuel⟩ : ∃ fuel, s.length + 2 ≤ fuel ∧ enough ≤ fuel :=
    ⟨_, Nat.le_max_left (s.length + 2) enough, Nat.le_max_right _ _⟩
  obtain ⟨hrun, n, hstands⟩ := parse_stands h filename
    (Nat.lt_of_lt_of_le (Nat.lt_add_of_pos_right Nat.two_pos) hlong)
  have hread := (tokens_answer filename s hlong).reads (hrun.symm.trans (hok fuel hfuel))
  have hend := answer_end (tokens_answer filename s hlong) (hrun.symm.trans (hok fuel hfuel))
  have hleft := hstands.suffix.map Place.token
  rw [placed_token, placed_token, ← hstands.toks] at hleft
  obtain ⟨stop, rest, hlex⟩ := lex_head (parseFrom (bufferSource rd fuel) (Buffer.init r) filename
    fuel).2.pos (s.drop n)
  rw [hstands.toks, hlex] at hend hleft hread
  obtain rfl := lexUpTo_eof hleft hend
  exact ⟨_, hread⟩

/-- The lexemes of an accepted stream come first where more comes after it. -/
theorem accepted_lexed {comment : Bool} (h : Delivers rd r s)
    (ht : Settles (parse rd r filename) (.ok t)) (hmode : modeAfter .text s = blankMode comment) :
    ∃ toks, lexed s = toks ++ [.eof] ∧
      ∀ x, Parts comment x → lexed (s ++ x) = toks ++ lexed (unblank comment x) := by
  refine (lexed_append hmode).resolve_right fun hcut => ?_
  -- Otherwise noise after the stream would be accepted too.
  have hsame : (tokens filename s).map Token.lexeme =
      (tokens filename (s ++ noise)).map Token.lexeme := by
    rw [tokens, tokens, lex_lexed, lex_lexed, hcut noise (Or.inr rfl)]
  obtain ⟨t', ht', _⟩ := tree_of_lexemes h (stdinReader_delivers (s ++ noise)) hsame ht
  refine noise_rejected (fun hstopped => ?_) (stdinReader_delivers (s ++ noise)) t' ht'
  rw [hstopped] at hmode
  cases comment <;> cases hmode

end

/-! ## Empty sections -/

section

variable {incs space decls incs' space' decls' : List Lexeme} {includes includes' : List AstInclude}
  {name name' : AstQualifiedIdentifier} {declared declared' : List Decl} {t t' : AstRoot}

/-- Tokens of these lexemes. -/
def standing (lexemes : List Lexeme) : List Token := lexemes.map fun lx => ⟨lx, noOrigin, noOrigin⟩

theorem standing_lexemes (lexemes : List Lexeme) :
    (standing lexemes).map Token.lexeme = lexemes := by
  rw [standing, List.map_map]
  exact List.map_id lexemes

theorem standing_nil (lexemes : List Lexeme) : standing lexemes = [] ↔ lexemes = [] :=
  List.map_eq_nil_iff

/-- What is read as items is nothing exactly if there are none. -/
theorem items_nil {α β : Type} {e : α → β} {g : Rule Token α} {lexemes : List Lexeme} {xs : List β}
    (hg : Takes 1 g) (h : ReadsAs Token.lexeme (List.map e) (many g) lexemes xs) :
    xs = [] ↔ lexemes = [] := by
  obtain ⟨as, has, rfl⟩ := h (standing lexemes) [] (standing_lexemes lexemes)
  rw [List.map_eq_nil_iff, Many.nil_iff hg has, standing_nil]

/-- The same for the namespace part, whose identifiers are words. -/
theorem space_nil (h : ReadsAs Token.lexeme id namespaceRule space name)
    (hwords : ∀ word, .identifier word ∈ space → IsWord word) : name = ⟨[], []⟩ ↔ space = [] := by
  obtain ⟨_, hread, rfl⟩ := h (standing space) [] (standing_lexemes space)
  have hworded : Worded (standing space) := by
    intro tok htok word hword
    refine hwords word (hword ▸ ?_)
    rw [← standing_lexemes space]
    exact List.mem_map_of_mem htok
  rw [List.append_nil] at hread
  rw [← standing_nil]
  rcases hread with ⟨_, _, ⟨tok, htoks, _⟩, hqual⟩ | ⟨hname, hnil⟩
  · have hword := (qual_isWord (fun tok' h => hworded tok' (htoks ▸ .tail _ h)) hqual).2
    constructor
    · intro hname
      rw [id_eq] at hname
      rw [hname] at hword
      cases hword.ne_nil
    · intro hnil
      cases htoks.symm.trans hnil
  · exact ⟨fun _ => hnil.symm, fun _ => hname⟩

theorem treeOf_eq (includes : List AstInclude) (name : AstQualifiedIdentifier)
    (declared : List Decl) : treeOf includes name declared =
      { origin := noOrigin, includes, space := name
        structDecls := declared.filterMap asStruct
        mapDecls := declared.filterMap asMapping
        encoDecls := declared.filterMap asEncoding } := by
  rw [treeOf, foldl_declare]
  rfl

theorem declared_nil (hstructs : declared.filterMap asStruct = [])
    (hmappings : declared.filterMap asMapping = [])
    (hencodings : declared.filterMap asEncoding = []) : declared = [] := by
  cases declared with
  | nil => rfl
  | cons decl declared => cases decl <;> simp [asStruct, asMapping, asEncoding] at *

theorem onlyIncludes_iff (h : Sections incs space decls includes name declared)
    (htree : t.eraseOrigin = treeOf includes name declared)
    (hwords : ∀ word, .identifier word ∈ space → IsWord word) :
    t.OnlyIncludes ↔ space = [] ∧ decls = [] := by
  rw [treeOf_eq] at htree
  have hspace : t.space = name := congrArg AstRoot.space htree
  have hstructs := congrArg AstRoot.structDecls htree
  have hmappings := congrArg AstRoot.mapDecls htree
  have hencodings := congrArg AstRoot.encoDecls htree
  dsimp only [AstRoot.eraseOrigin] at hstructs hmappings hencodings
  rw [← space_nil h.space hwords, ← items_nil decl_takes h.decls]
  constructor
  · rintro ⟨hname, hs, hm, he⟩
    rw [hs] at hstructs
    rw [hm] at hmappings
    rw [he] at hencodings
    exact ⟨hspace ▸ hname, declared_nil hstructs.symm hmappings.symm hencodings.symm⟩
  · rintro ⟨hname, rfl⟩
    exact ⟨hspace.trans hname, List.map_eq_nil_iff.mp hstructs, List.map_eq_nil_iff.mp hmappings,
      List.map_eq_nil_iff.mp hencodings⟩

theorem onlyDecls_iff (h : Sections incs space decls includes name declared)
    (htree : t.eraseOrigin = treeOf includes name declared)
    (hwords : ∀ word, .identifier word ∈ space → IsWord word) :
    t.OnlyDecls ↔ incs = [] ∧ space = [] := by
  rw [treeOf_eq] at htree
  have hspace : t.space = name := congrArg AstRoot.space htree
  have hincludes := congrArg AstRoot.includes htree
  dsimp only [AstRoot.eraseOrigin] at hincludes
  rw [← space_nil h.space hwords, ← items_nil include_takes h.includes, ← hincludes,
    List.map_eq_nil_iff, ← hspace]
  constructor
  · rintro ⟨hincs, hname⟩
    exact ⟨hincs, hname⟩
  · rintro ⟨hincs, hname⟩
    exact ⟨hincs, hname⟩

/-! ## One document after the other -/

theorem sections_join (h : Sections incs space decls includes name declared)
    (h' : Sections incs' space' decls' includes' name' declared')
    (hwords : ∀ word, .identifier word ∈ space → IsWord word)
    (hwords' : ∀ word, .identifier word ∈ space' → IsWord word)
    (horder : space = [] ∧ decls = [] ∨ incs' = [] ∧ space' = []) :
    Sections (incs ++ incs') (space ++ space') (decls ++ decls') (includes ++ includes')
      (if name = ⟨[], []⟩ then name' else name) (declared ++ declared') := by
  refine ⟨h.includes.append h'.includes, ?_, h.decls.append h'.decls⟩
  rcases horder with ⟨hnil, _⟩ | ⟨_, hnil⟩
  · rw [if_pos ((space_nil h.space hwords).mpr hnil), hnil]
    exact h'.space
  · have hname' := (space_nil h'.space hwords').mpr hnil
    rw [hnil, List.append_nil]
    split
    · next hname =>
      rw [hname', ← hname]
      exact h.space
    · exact h.space

theorem treeOf_join (ht : t.eraseOrigin = treeOf includes name declared)
    (ht' : t'.eraseOrigin = treeOf includes' name' declared') :
    (t.join t').eraseOrigin = treeOf (includes ++ includes')
      (if name = ⟨[], []⟩ then name' else name) (declared ++ declared') := by
  have hjoin : (t.join t').eraseOrigin = t.eraseOrigin.join t'.eraseOrigin := by
    unfold AstRoot.join AstRoot.eraseOrigin
    simp only [List.map_append]
  rw [hjoin, ht, ht', treeOf_eq, treeOf_eq, treeOf_eq]
  simp only [AstRoot.join, List.filterMap_append]

variable {toks rest rest' left : List Token} {filename : List UInt8}

theorem decl_next {decl : Decl} (h : declRule toks decl rest) :
    nextSymbol toks ∈ [Symbol.structKw, .mappingKw, .encodingKw] := by
  rcases decl_cases h with ⟨_, _, _, hnext⟩ | ⟨_, _, _, hnext⟩ | ⟨_, _, _, hnext⟩
  · simp [hnext]
  · simp [hnext]
  · simp [hnext]

/-- What a document that is not all declarations starts with. -/
theorem head_next (h : Sections incs space decls includes name declared) {last : List Lexeme}
    (htoks : toks.map Token.lexeme = incs ++ (space ++ last)) (hne : ¬(incs = [] ∧ space = [])) :
    nextSymbol toks = .includeKw ∨ nextSymbol toks = .namespaceKw := by
  obtain ⟨own, _, rfl, rfl, hrest⟩ := List.map_eq_append_iff.mp htoks
  obtain ⟨own', more, rfl, rfl, _⟩ := List.map_eq_append_iff.mp hrest
  obtain ⟨_, hincs, _⟩ := h.includes own (own' ++ more) rfl
  rcases hincs.starts with hnil | ⟨_, _, hinc⟩
  · obtain rfl := List.append_left_eq_self.mp hnil
    obtain ⟨_, hspace, _⟩ := h.space own' more rfl
    rcases hspace with ⟨_, _, hkw, _⟩ | ⟨_, hnil'⟩
    · exact Or.inr (fixed_next hkw)
    · obtain rfl := List.append_left_eq_self.mp hnil'.symm
      exact absurd ⟨rfl, rfl⟩ hne
  · exact Or.inl (include_next hinc)

/-- What comes after the includes of a document that is not all includes. -/
theorem tail_next (h : Sections incs space decls includes name declared) {last : List Lexeme}
    (htoks : toks.map Token.lexeme = space ++ (decls ++ last)) (hne : ¬(space = [] ∧ decls = [])) :
    nextSymbol toks ∈ [Symbol.namespaceKw, .structKw, .mappingKw, .encodingKw] := by
  obtain ⟨own, _, rfl, rfl, hrest⟩ := List.map_eq_append_iff.mp htoks
  obtain ⟨own', more, rfl, rfl, _⟩ := List.map_eq_append_iff.mp hrest
  obtain ⟨_, hspace, _⟩ := h.space own (own' ++ more) rfl
  rcases hspace with ⟨_, _, hkw, _⟩ | ⟨_, hnil⟩
  · simp [fixed_next hkw]
  obtain rfl := List.append_left_eq_self.mp hnil.symm
  obtain ⟨_, hdecls, _⟩ := h.decls own' more rfl
  rcases hdecls.starts with hnil' | ⟨_, _, hdecl⟩
  · obtain rfl := List.append_left_eq_self.mp hnil'
    exact absurd ⟨rfl, rfl⟩ hne
  · exact List.mem_cons_of_mem _ (decl_next hdecl)

/-! ## A reading ends in one place -/

theorem include_end {inc inc' : AstInclude} (h : includeRule toks inc rest)
    (h' : includeRule toks inc' rest') : rest = rest' := by
  obtain ⟨_, _, ⟨rfl, rfl⟩, _, _, ⟨_, rfl, _⟩, _, _, ⟨_, rfl, _⟩, rfl, rfl⟩ := h
  obtain ⟨_, _, ⟨rfl, rfl⟩, _, _, ⟨_, htoks, _⟩, _, _, ⟨_, rfl, _⟩, rfl, rfl⟩ := h'
  cases htoks
  rfl

theorem decl_end {decl decl' : Decl} (h : declRule toks decl rest)
    (h' : declRule toks decl' rest') : rest = rest' := by
  have hdecides := declStep_decides (P := fun _ => True) (Nat.le_refl (toks.length + 1))
    (treeOf [] ⟨[], []⟩ [])
  exact (hdecides.unique (s := ⟨noOrigin, toks⟩) trivial (Nat.lt_succ_self toks.length)
    (Or.inl ⟨decl, h, rfl⟩) trivial (Or.inl ⟨decl', h', rfl⟩) trivial).2

theorem qual_end {id id' : AstQualifiedIdentifier} (h : qualRule toks id rest)
    (h' : qualRule toks id' rest') (hnext : nextSymbol rest ≠ .namespaceSep)
    (hnext' : nextSymbol rest' ≠ .namespaceSep) : rest = rest' := by
  have hdecides := qual_decides (P := fun _ => True) (Nat.le_refl (toks.length + 1))
  exact (hdecides.unique (s := ⟨noOrigin, toks⟩) trivial (Nat.lt_succ_self toks.length)
    h hnext h' hnext').2

/-- The namespace part ends in one place, if what comes after it tells. -/
theorem namespace_end {id id' : AstQualifiedIdentifier} (h : namespaceRule toks id rest)
    (h' : namespaceRule toks id' rest') (hnext : nextSymbol rest ≠ .namespaceSep)
    (hnext' : nextSymbol rest' ≠ .namespaceSep)
    (hskip : toks = rest → nextSymbol toks ≠ .namespaceKw)
    (hskip' : toks = rest' → nextSymbol toks ≠ .namespaceKw) : rest = rest' := by
  rcases h with ⟨_, _, hkw, hqual⟩ | ⟨_, rfl⟩
  · rcases h' with ⟨_, _, hkw', hqual'⟩ | ⟨_, rfl⟩
    · obtain ⟨_, rfl, _⟩ := hkw
      obtain ⟨_, htoks, _⟩ := hkw'
      cases htoks
      exact qual_end hqual hqual' hnext hnext'
    · exact absurd (fixed_next hkw) (hskip' rfl)
  · rcases h' with ⟨_, _, hkw', _⟩ | ⟨_, rfl⟩
    · exact absurd (fixed_next hkw') (hskip rfl)
    · rfl

/-- A document that is another one after the first is in order: its reading
comes to the end of every section of the first one, and goes on from there. -/
theorem in_order (h : Sections incs space decls includes name declared)
    (h' : Sections incs' space' decls' includes' name' declared') {last : List Lexeme}
    (htoks : toks.map Token.lexeme =
      incs ++ (space ++ (decls ++ (incs' ++ (space' ++ last)))))
    (hdocument : documentRule filename toks t left) :
    space = [] ∧ decls = [] ∨ incs' = [] ∧ space' = [] := by
  by_contra hnot
  obtain ⟨hfirst, hsecond⟩ := not_or.mp hnot
  obtain ⟨own, mid, rfl, hown, hmid⟩ := List.map_eq_append_iff.mp htoks
  obtain ⟨own', mid', rfl, hown', hmid'⟩ := List.map_eq_append_iff.mp hmid
  obtain ⟨own'', more, rfl, hown'', hmore⟩ := List.map_eq_append_iff.mp hmid'
  have htail := tail_next h hmid hfirst
  have hhead := head_next h' hmore hsecond
  obtain ⟨_, hincs, _⟩ := h.includes own (own' ++ (own'' ++ more)) hown
  obtain ⟨_, hspace, _⟩ := h.space own' (own'' ++ more) hown'
  obtain ⟨_, hdecls, _⟩ := h.decls own'' more hown''
  obtain ⟨_, rest, hincs', _, rest', hspace', _, stop, hdecls', _, _, ⟨hend, _⟩, _⟩ := hdocument
  have hfollow := decls_follow hdecls' (Or.inl hend)
  have hkeyword : ∀ {toks rest decl symbol}, declRule toks decl rest →
      symbol ∉ [Symbol.structKw, .mappingKw, .encodingKw] → nextSymbol toks ≠ symbol :=
    fun hdecl hsymbol hnext => hsymbol (hnext ▸ decl_next hdecl)
  -- The includes end before the namespace part.
  have hstop : ∀ inc mid, ¬includeRule (own' ++ (own'' ++ more)) inc mid := by
    intro inc mid hinc
    rw [include_next hinc] at htail
    simp at htail
  have hstop' : ∀ inc mid, ¬includeRule rest inc mid :=
    fun inc mid hinc => namespace_next hspace' hfollow.2 (include_next hinc)
  obtain rfl := Many.end_unique (g := includeRule) (fun _ _ _ _ _ => include_end) hincs
    hincs' hstop hstop'
  -- The namespace part ends before the declarations.
  have hsep : nextSymbol (own'' ++ more) ≠ .namespaceSep := by
    rcases hdecls.starts with hnil | ⟨_, _, hdecl⟩
    · rw [hnil]
      rcases hhead with hnext | hnext <;> simp [hnext]
    · exact hkeyword hdecl (by decide)
  have hskip : own' ++ (own'' ++ more) = own'' ++ more →
      nextSymbol (own' ++ (own'' ++ more)) ≠ .namespaceKw := by
    intro hnil
    obtain rfl := List.append_left_eq_self.mp hnil
    rcases hdecls.starts with hnil' | ⟨_, _, hdecl⟩
    · obtain rfl := List.append_left_eq_self.mp hnil'
      exact absurd ⟨hown'.symm, hown''.symm⟩ hfirst
    · exact hkeyword hdecl (by decide)
  obtain rfl := namespace_end hspace hspace' hsep hfollow.1.2 hskip fun hnil => hnil ▸ hfollow.1.1
  -- The declarations end at the second document, which is not at the end.
  have hstuck : ∀ decl mid, ¬declRule more decl mid := by
    intro decl mid hdecl
    exact hhead.elim (hkeyword hdecl (by decide)) (hkeyword hdecl (by decide))
  have hstuck' : ∀ decl mid, ¬declRule stop decl mid := by
    intro decl mid hdecl
    exact hkeyword hdecl (by decide) hend
  obtain rfl := Many.end_unique (g := declRule) (fun _ _ _ _ _ => decl_end) hdecls hdecls'
    hstuck hstuck'
  rcases hhead with hnext | hnext <;> cases hend.symm.trans hnext

/-- The sections of a stream that is a document; its identifiers are words. -/
theorem stream_sections {s : List UInt8} (h : documentRule filename (tokens filename s) t left) :
    ∃ incs space decls includes name declared, Sections incs space decls includes name declared ∧
      lexed s = incs ++ (space ++ (decls ++ left.map Token.lexeme)) ∧
      (headLexeme left).symbol = .eof ∧ t.eraseOrigin = treeOf includes name declared ∧
      ∀ word, .identifier word ∈ space → IsWord word := by
  obtain ⟨incs, space, decls, includes, name, declared, hsections, hlexed, hend, htree⟩ :=
    document_sections h
  refine ⟨incs, space, decls, includes, name, declared, hsections, ?_, hend, htree, ?_⟩
  · rw [← hlexed, tokens, lex_lexed]
  · intro word hword
    have hmem : .identifier word ∈ (tokens filename s).map Token.lexeme := by
      rw [hlexed]
      exact List.mem_append_right _ (List.mem_append_left _ hword)
    obtain ⟨tok, htok, hlexeme⟩ := List.mem_map.mp hmem
    exact tokens_worded filename s tok htok word hlexeme

end

end JoiningLemmas

open JoiningLemmas CorrectnessLemmas SpacingLemmas LayoutLemmas PrintingLemmas

/-- Two documents with a gap between them are a document exactly if the first one
is all includes or the second one all declarations, and it has the parts of
both. -/
theorem documents_join {ρ ρ' ρ'' : Type} (rd : StreamReader ρ) (r : ρ) (rd' : StreamReader ρ')
    (r' : ρ') (rd'' : StreamReader ρ'') (r'' : ρ'') (comment : Bool)
    (u g v filename filename' filename'' : List UInt8) (t t' : AstRoot) (h : Delivers rd r u)
    (ht : Settles (parse rd r filename) (.ok t)) (h' : Delivers rd' r' v)
    (ht' : Settles (parse rd' r' filename') (.ok t'))
    (hmode : modeAfter .text u = WholeStreamLemmas.blankMode comment)
    (hg : gapAfter comment g = some false) (hne : g ≠ [])
    (h'' : Delivers rd'' r'' (u ++ (g ++ v))) :
    ((∃ root, Settles (parse rd'' r'' filename'') (.ok root)) ↔ t.OnlyIncludes ∨ t'.OnlyDecls) ∧
      ∀ root, Settles (parse rd'' r'' filename'') (.ok root) → root.SameTree (t.join t') := by
  -- The lexemes of both, one after the other.
  obtain ⟨tok, hread⟩ := accepted_left h ht
  obtain ⟨incs, space, decls, includes, name, declared, hsections, hlexed, _, htree, hwords⟩ :=
    stream_sections hread
  obtain ⟨left, hread'⟩ := (settles_iff_derives h' filename' t').mp ht'
  obtain ⟨incs', space', decls', includes', name', declared', hsections', hlexed', hend, htree',
    hwords'⟩ := stream_sections hread'
  obtain ⟨toks, hall, hthen⟩ := accepted_lexed h ht hmode
  have hboth : toks ++ [.eof] = incs ++ (space ++ decls) ++ [tok.lexeme] := by
    rw [← hall, hlexed]
    simp only [List.append_assoc, List.map_cons, List.map_nil]
  have htoks := (List.append_inj' hboth rfl).1
  have hjoined : (tokens filename'' (u ++ (g ++ v))).map Token.lexeme = incs ++ (space ++ (decls ++
      (incs' ++ (space' ++ (decls' ++ left.map Token.lexeme))))) := by
    rw [tokens, lex_lexed, hthen _ (gap_parts hg hne v), unblank_gap hg, lexed_unblank, hlexed',
      htoks]
    simp only [List.append_assoc]
  rw [onlyIncludes_iff hsections htree hwords, onlyDecls_iff hsections' htree' hwords']
  have horder : ∀ root, Settles (parse rd'' r'' filename'') (.ok root) →
      space = [] ∧ decls = [] ∨ incs' = [] ∧ space' = [] := by
    intro root hroot
    obtain ⟨_, hderives⟩ := (settles_iff_derives h'' filename'' root).mp hroot
    exact in_order hsections hsections' hjoined hderives
  have hthere : space = [] ∧ decls = [] ∨ incs' = [] ∧ space' = [] →
      ∃ root, Settles (parse rd'' r'' filename'') (.ok root) ∧ root.SameTree (t.join t') := by
    intro horder
    have hboth := sections_join hsections hsections' hwords hwords' horder
    have hlexemes : (tokens filename'' (u ++ (g ++ v))).map Token.lexeme = incs ++ incs' ++
        (space ++ space' ++ (decls ++ decls' ++ left.map Token.lexeme)) := by
      rw [hjoined]
      rcases horder with ⟨rfl, rfl⟩ | ⟨rfl, rfl⟩
      · simp
      · simp
    obtain ⟨root, left', hderives, hsame⟩ := hboth.document hlexemes hend filename''
    exact ⟨root, (settles_iff_derives h'' filename'' root).mpr ⟨left', hderives⟩,
      hsame.trans (treeOf_join htree htree').symm⟩
  refine ⟨⟨?_, fun hin => ?_⟩, fun root hroot => ?_⟩
  · rintro ⟨root, hroot⟩
    exact horder root hroot
  · obtain ⟨root, hroot, _⟩ := hthere hin
    exact ⟨root, hroot⟩
  · obtain ⟨root', hroot', hsame⟩ := hthere (horder root hroot)
    have hone := derives_unique ((settles_iff_derives h'' filename'' root).mp hroot)
      ((settles_iff_derives h'' filename'' root').mp hroot')
    exact hone ▸ hsame

def includeTree : AstRoot :=
  { origin := ⟨[], 1, 0⟩, includes := [⟨⟨[], 1, 0⟩, [Char.toUInt8 'a']⟩], space := ⟨[], []⟩
    structDecls := [], mapDecls := [], encoDecls := [] }

/-- `INCLUDE "a"`, a line end and `INCLUDE "a"` again. -/
theorem documents_join_include :
    ∃ root, Settles (parse stdinReader (includeExample ++ ([lineFeed] ++ includeExample)) [])
      (.ok root) ∧ root.SameTree (includeTree.join includeTree) := by
  have htokens : tokens [] includeExample =
      [⟨.fixed .includeKw, ⟨[], 1, 0⟩, ⟨[], 1, 7⟩⟩,
        ⟨.string [Char.toUInt8 'a'], ⟨[], 1, 8⟩, ⟨[], 1, 11⟩⟩,
        ⟨.eof, ⟨[], 1, 11⟩, ⟨[], 1, 11⟩⟩] := by decide
  have htree : Settles (parse stdinReader includeExample []) (.ok includeTree) := by
    refine (settles_iff_derives (stdinReader_delivers _) [] _).mpr ?_
    rw [htokens]
    exact ⟨_, [_], _, .cons ⟨_, _, ⟨rfl, rfl⟩, (), _, ⟨_, rfl, rfl⟩, _, _, ⟨_, rfl, rfl⟩, rfl, rfl⟩
      (.nil _), _, _, Or.inr ⟨rfl, rfl⟩, [], _, .nil _, (), _, ⟨rfl, rfl⟩, rfl, rfl⟩
  have hjoin := documents_join stdinReader includeExample stdinReader includeExample stdinReader
    (includeExample ++ ([lineFeed] ++ includeExample)) false includeExample [lineFeed]
    includeExample [] [] [] includeTree includeTree (stdinReader_delivers _) htree
    (stdinReader_delivers _) htree (by decide) rfl (List.cons_ne_nil _ _) (stdinReader_delivers _)
  obtain ⟨root, hroot⟩ := hjoin.1.mpr (Or.inl ⟨rfl, rfl, rfl, rfl⟩)
  exact ⟨root, hroot, hjoin.2 root hroot⟩

end Ian.Happy
