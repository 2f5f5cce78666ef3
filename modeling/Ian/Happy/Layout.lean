import Ian.Happy.ReadBack
import Ian.Happy.FirstBadToken

/-!
# The layout of a document

A document is its lexemes: two streams with the same ones are read as the same
tree up to origins, or are given up at the same token with the same message, or
the parser finishes on neither (`layout_ignored`). So the blanks and comments
between two tokens can be replaced by any others (`spacing_ignored`).
-/

namespace Ian.Happy

open Ian.Lib Run Rule

def Decl.eraseOrigin : Decl → Decl
  | .struct node => .struct node.eraseOrigin
  | .mapping node => .mapping node.eraseOrigin
  | .encoding node => .encoding node.eraseOrigin

namespace LayoutLemmas

open DecidingLemmas PrintingLemmas

/-- The rule reads tokens of the same lexemes alike, up to what `e` erases. -/
abbrev Unlaid {α β : Type} (e : α → β) (g : Rule Token α) : Prop := Spans Token.lexeme e g g

variable {toks toks' rest left : List Token} {filename : List UInt8} {t : AstRoot}

/-! ## The grammar -/

theorem terminal_unlaid {α : Type} (take : Lexeme → Option α) : Unlaid id (terminal take) := by
  rintro toks a rest ⟨tok, rfl, htake⟩
  refine ⟨[tok], rfl, fun toks' rest' hlexemes => ?_⟩
  obtain ⟨tok', rfl, hlexeme⟩ := List.map_eq_singleton_iff.mp hlexemes
  exact ⟨a, ⟨tok', rfl, hlexeme ▸ htake⟩, rfl⟩

theorem start_unlaid : Unlaid (fun _ => ()) startRule := by
  rintro toks _ _ ⟨rfl, rfl⟩
  refine ⟨[], rfl, fun toks' rest' hlexemes => ?_⟩
  obtain rfl := List.map_eq_nil_iff.mp hlexemes
  exact ⟨_, ⟨rfl, rfl⟩, rfl⟩

theorem qual_unlaid : Unlaid id qualRule := by
  refine (terminal_unlaid _).bind_same fun first => ?_
  have hdotted : Unlaid id dottedRule := (terminal_unlaid _).bind_same fun _ => terminal_unlaid _
  refine hdotted.many.bind fun more more' hmore => .pure ?_
  rw [List.map_id, List.map_id] at hmore
  rw [hmore]

theorem type_unlaid : Unlaid id typeRule := by
  refine qual_unlaid.bind_same fun identifier => .either ?_ (.pure rfl)
  have harray : Unlaid id arrayRule :=
    (terminal_unlaid _).bind_same fun _ => (terminal_unlaid _).bind_same fun size =>
      (terminal_unlaid _).bind_same fun _ => .pure rfl
  exact harray.bind_same fun size => .pure rfl

theorem include_unlaid : Unlaid AstInclude.eraseOrigin includeRule :=
  start_unlaid.bind fun _ _ _ => (terminal_unlaid _).bind_same fun _ =>
    (terminal_unlaid _).bind_same fun _ => .pure rfl

theorem structField_unlaid : Unlaid AstStructField.eraseOrigin structFieldRule :=
  start_unlaid.bind fun _ _ _ => (terminal_unlaid _).bind_same fun _ =>
    (terminal_unlaid _).bind_same fun _ => type_unlaid.bind_same fun _ => .pure rfl

theorem struct_unlaid : Unlaid AstStruct.eraseOrigin structRule := by
  refine start_unlaid.bind fun _ _ _ => (terminal_unlaid _).bind_same fun _ =>
    (terminal_unlaid _).bind_same fun identifier => (terminal_unlaid _).bind_same fun _ =>
      structField_unlaid.many.bind fun fields fields' hfields =>
        (terminal_unlaid _).bind_same fun _ => .pure ?_
  simp [AstStruct.eraseOrigin, hfields]

theorem mappingField_unlaid : Unlaid AstMappingField.eraseOrigin mappingFieldRule :=
  start_unlaid.bind fun _ _ _ => (terminal_unlaid _).bind_same fun _ =>
    (terminal_unlaid _).bind_same fun _ => (terminal_unlaid _).bind_same fun _ => .pure rfl

theorem mapping_unlaid : Unlaid AstMapping.eraseOrigin mappingRule := by
  refine start_unlaid.bind fun _ _ _ => (terminal_unlaid _).bind_same fun _ =>
    (terminal_unlaid _).bind_same fun structId => (terminal_unlaid _).bind_same fun _ =>
      qual_unlaid.bind_same fun mapCategory => (terminal_unlaid _).bind_same fun _ =>
        mappingField_unlaid.many.bind fun fields fields' hfields =>
          (terminal_unlaid _).bind_same fun _ => .pure ?_
  simp [AstMapping.eraseOrigin, hfields]

theorem encodingName_unlaid : Unlaid id encodingNameRule :=
  .either ((terminal_unlaid _).bind_same fun _ => terminal_unlaid _) (.pure rfl)

theorem encodingField_unlaid : Unlaid AstEncodingNode.eraseOrigin encodingFieldRule :=
  start_unlaid.bind fun _ _ _ => (terminal_unlaid _).bind_same fun _ =>
    encodingName_unlaid.bind_same fun _ => .pure rfl

theorem eraseOrigins_eq_map (nodes : List AstEncodingNode) :
    eraseOrigins nodes = nodes.map AstEncodingNode.eraseOrigin := by
  induction nodes with
  | nil => rfl
  | cons node nodes ih => rw [eraseOrigins, ih, List.map_cons]

mutual

theorem node_unlaid {toks rest : List Token} {node : AstEncodingNode} :
    EncodingNode toks node rest → ∃ own, toks = own ++ rest ∧
      ReadsAs Token.lexeme AstEncodingNode.eraseOrigin EncodingNode (own.map Token.lexeme)
        node.eraseOrigin
  | .field h => by
    obtain ⟨own, rfl, hfield⟩ := encodingField_unlaid _ _ _ h
    refine ⟨own, rfl, fun toks' rest' hlexemes => ?_⟩
    obtain ⟨node', h', hnode⟩ := hfield toks' rest' hlexemes
    exact ⟨node', .field h', hnode⟩
  | .deltaField hdelta h => by
    obtain ⟨own, rfl, hfirst⟩ := terminal_unlaid _ _ _ _ hdelta
    obtain ⟨own', rfl, hsecond⟩ := encodingField_unlaid _ _ _ h
    refine ⟨own ++ own', (List.append_assoc _ _ _).symm, fun toks' rest' hlexemes => ?_⟩
    rw [List.map_append] at hlexemes
    obtain ⟨toks, toks', rfl, htoks, htoks'⟩ := List.map_eq_append_iff.mp hlexemes
    obtain ⟨_, hdelta', rfl⟩ := hfirst toks (toks' ++ rest') htoks
    obtain ⟨node', h', hnode⟩ := hsecond toks' rest' htoks'
    rw [List.append_assoc]
    refine ⟨_, .deltaField hdelta' h', ?_⟩
    simp [AstEncodingNode.eraseOrigin, eraseOrigins_eq_map, hnode]
  | .deltaBlock hdelta hopen h hclose => by
    obtain ⟨own, rfl, hfirst⟩ := terminal_unlaid _ _ _ _ hdelta
    obtain ⟨own', rfl, hsecond⟩ := terminal_unlaid _ _ _ _ hopen
    obtain ⟨inner, rfl, hinner⟩ := nodes_unlaid h
    obtain ⟨own'', rfl, hlast⟩ := terminal_unlaid _ _ _ _ hclose
    refine ⟨own ++ (own' ++ (inner ++ own'')), by simp only [List.append_assoc], ?_⟩
    intro toks' rest' hlexemes
    simp only [List.map_append] at hlexemes
    obtain ⟨toks, _, rfl, htoks, hlexemes⟩ := List.map_eq_append_iff.mp hlexemes
    obtain ⟨toks', _, rfl, htoks', hlexemes⟩ := List.map_eq_append_iff.mp hlexemes
    obtain ⟨inner', toks'', rfl, hinner', htoks''⟩ := List.map_eq_append_iff.mp hlexemes
    obtain ⟨_, hdelta', rfl⟩ := hfirst toks (toks' ++ (inner' ++ (toks'' ++ rest'))) htoks
    obtain ⟨_, hopen', rfl⟩ := hsecond toks' (inner' ++ (toks'' ++ rest')) htoks'
    obtain ⟨nodes', h', hnodes⟩ := hinner inner' (toks'' ++ rest') hinner'
    obtain ⟨_, hclose', rfl⟩ := hlast toks'' rest' htoks''
    simp only [List.append_assoc]
    refine ⟨_, .deltaBlock hdelta' hopen' h' hclose', ?_⟩
    simp [AstEncodingNode.eraseOrigin, eraseOrigins_eq_map, hnodes]

theorem nodes_unlaid {toks rest : List Token} {nodes : List AstEncodingNode} :
    Many EncodingNode toks nodes rest → ∃ own, toks = own ++ rest ∧
      ReadsAs Token.lexeme (List.map AstEncodingNode.eraseOrigin) (many EncodingNode)
        (own.map Token.lexeme) (nodes.map AstEncodingNode.eraseOrigin)
  | .nil _ => ⟨[], rfl, .none⟩
  | .cons h hs => by
    obtain ⟨own, rfl, hnode⟩ := node_unlaid h
    obtain ⟨own', rfl, hnodes⟩ := nodes_unlaid hs
    refine ⟨own ++ own', (List.append_assoc _ _ _).symm, ?_⟩
    rw [List.map_append]
    exact hnode.one.append hnodes

end

theorem encoding_unlaid : Unlaid AstEncoding.eraseOrigin encodingRule := by
  have hnodes : Unlaid (List.map AstEncodingNode.eraseOrigin) (many EncodingNode) :=
    fun _ _ _ h => nodes_unlaid h
  refine start_unlaid.bind fun _ _ _ => (terminal_unlaid _).bind_same fun _ =>
    (terminal_unlaid _).bind_same fun structId => encodingName_unlaid.bind_same fun encoId =>
      (terminal_unlaid _).bind_same fun _ => hnodes.bind fun fields fields' hfields =>
        (terminal_unlaid _).bind_same fun _ => .pure ?_
  simp [AstEncoding.eraseOrigin, eraseOrigins_eq_map, hfields]

theorem decl_unlaid : Unlaid Decl.eraseOrigin declRule := by
  refine .either ?_ (.either ?_ ?_)
  · exact struct_unlaid.bind fun node node' hnode => .pure (congrArg Decl.struct hnode)
  · exact mapping_unlaid.bind fun node node' hnode => .pure (congrArg Decl.mapping hnode)
  · exact encoding_unlaid.bind fun node node' hnode => .pure (congrArg Decl.encoding hnode)

theorem namespace_unlaid : Unlaid id namespaceRule :=
  .either ((terminal_unlaid _).bind_same fun _ => qual_unlaid) (.pure rfl)

/-- The declarations without their origins, one after the other. -/
theorem declare_eraseOrigin (root : AstRoot) (decls : List Decl) :
    (decls.foldl AstRoot.declare root).eraseOrigin =
      (decls.map Decl.eraseOrigin).foldl AstRoot.declare root.eraseOrigin := by
  induction decls generalizing root with
  | nil => rfl
  | cons decl decls ih =>
    rw [List.foldl_cons, List.map_cons, List.foldl_cons, ih]
    cases decl <;> simp [AstRoot.declare, AstRoot.eraseOrigin, Decl.eraseOrigin]

/-! ## The sections of a document -/

/-- Lexemes of includes, of a namespace part and of declarations, and what they
are read as up to origins. -/
structure Sections (incs space decls : List Lexeme) (includes : List AstInclude)
    (name : AstQualifiedIdentifier) (declared : List Decl) : Prop where
  includes : ReadsAs Token.lexeme (List.map AstInclude.eraseOrigin) (many includeRule) incs includes
  space : ReadsAs Token.lexeme id namespaceRule space name
  decls : ReadsAs Token.lexeme (List.map Decl.eraseOrigin) (many declRule) decls declared

/-- The tree of a document with these sections. -/
def treeOf (includes : List AstInclude) (name : AstQualifiedIdentifier) (declared : List Decl) :
    AstRoot :=
  declared.foldl AstRoot.declare
    { origin := noOrigin, includes, space := name, structDecls := [], mapDecls := [],
      encoDecls := [] }

theorem head_of_lexemes (h : toks.map Token.lexeme = toks'.map Token.lexeme) :
    headLexeme toks = headLexeme toks' := by
  cases toks with
  | nil =>
    obtain rfl := List.map_eq_nil_iff.mp h.symm
    rfl
  | cons tok rest =>
    obtain ⟨tok', rest', rfl, hlexeme, _⟩ := List.map_eq_cons_iff.mp h.symm
    exact hlexeme.symm

/-- A document is its sections and the end. -/
theorem document_sections (h : documentRule filename toks t left) :
    ∃ incs space decls includes name declared, Sections incs space decls includes name declared ∧
      toks.map Token.lexeme = incs ++ (space ++ (decls ++ left.map Token.lexeme)) ∧
      (headLexeme left).symbol = .eof ∧ t.eraseOrigin = treeOf includes name declared := by
  obtain ⟨_, _, hincs, _, _, hspace, _, _, hdecls, _, _, ⟨hend, rfl⟩, rfl, rfl⟩ := h
  obtain ⟨own, rfl, hown⟩ := include_unlaid.many _ _ _ hincs
  obtain ⟨own', rfl, hown'⟩ := namespace_unlaid _ _ _ hspace
  obtain ⟨own'', rfl, hown''⟩ := decl_unlaid.many _ _ _ hdecls
  refine ⟨_, _, _, _, _, _, ⟨hown, hown', hown''⟩, ?_, hend, declare_eraseOrigin _ _⟩
  simp only [List.map_append]

/-- Sections and the end are a document. -/
theorem Sections.document {incs space decls : List Lexeme} {includes : List AstInclude}
    {name : AstQualifiedIdentifier} {declared : List Decl}
    (h : Sections incs space decls includes name declared)
    (htoks : toks.map Token.lexeme = incs ++ (space ++ (decls ++ left.map Token.lexeme)))
    (hend : (headLexeme left).symbol = .eof) (filename : List UInt8) :
    ∃ t left', documentRule filename toks t left' ∧
      t.eraseOrigin = treeOf includes name declared := by
  obtain ⟨own, _, rfl, hown, htoks⟩ := List.map_eq_append_iff.mp htoks
  obtain ⟨own', _, rfl, hown', htoks⟩ := List.map_eq_append_iff.mp htoks
  obtain ⟨own'', left', rfl, hown'', hleft⟩ := List.map_eq_append_iff.mp htoks
  obtain ⟨_, hincs, rfl⟩ := h.includes own (own' ++ (own'' ++ left')) hown
  obtain ⟨_, hspace, rfl⟩ := h.space own' (own'' ++ left') hown'
  obtain ⟨_, hdecls, rfl⟩ := h.decls own'' left' hown''
  exact ⟨_, left', ⟨_, _, hincs, _, _, hspace, _, _, hdecls, (), _,
    ⟨head_of_lexemes hleft ▸ hend, rfl⟩, rfl, rfl⟩, declare_eraseOrigin _ _⟩

end LayoutLemmas

/-- A stream is read as another one is: as the same tree up to origins, or it is
given up at the token of the same number with the same message, or the parser
finishes on neither. -/
structure ReadAlike {ρ ρ' : Type} (rd : StreamReader ρ) (r : ρ) (s filename : List UInt8)
    (rd' : StreamReader ρ') (r' : ρ') (s' filename' : List UInt8) : Prop where
  tree : ∀ t, Settles (parse rd r filename) (.ok t) →
    ∃ t', Settles (parse rd' r' filename') (.ok t') ∧ t.SameTree t'
  exception : ∀ e, Settles (parse rd r filename) (.throw e) →
    ∃ (i : Nat) (tok tok' : Token) (message : String), (tokens filename s)[i]? = some tok ∧
      (tokens filename' s')[i]? = some tok' ∧ e = .parse tok.start message ∧
      Settles (parse rd' r' filename') (.throw (.parse tok'.start message))
  hangs : Settles (parse rd r filename) .outOfFuel → Settles (parse rd' r' filename') .outOfFuel

namespace LayoutLemmas

open CorrectnessLemmas FirstBadLemmas PlacingLemmas PositionsLemmas

variable {ρ ρ' : Type} {rd : StreamReader ρ} {r : ρ} {rd' : StreamReader ρ'} {r' : ρ'}
  {s s' filename filename' : List UInt8}

theorem tree_of_lexemes (h : Delivers rd r s) (h' : Delivers rd' r' s')
    (hlexemes : (tokens filename s).map Token.lexeme = (tokens filename' s').map Token.lexeme)
    {t : AstRoot} (ht : Settles (parse rd r filename) (.ok t)) :
    ∃ t', Settles (parse rd' r' filename') (.ok t') ∧ t.SameTree t' := by
  obtain ⟨rest, hread⟩ := (settles_iff_derives h filename t).mp ht
  obtain ⟨_, _, _, _, _, _, hsections, htoks, hend, htree⟩ := document_sections hread
  obtain ⟨t', rest', hread', htree'⟩ :=
    hsections.document (hlexemes.symm.trans htoks) hend filename'
  exact ⟨t', (settles_iff_derives h' filename' t').mpr ⟨rest', hread'⟩, htree.trans htree'.symm⟩

/-- The token at a place, by its number. -/
theorem token_at {before after : List Place} {next : Place}
    (hplaced : placed 0 ⟨filename, 1, 0⟩ s = before ++ next :: after) :
    (tokens filename s)[before.length]? = some next.token := by
  rw [tokens, ← placed_token 0, hplaced, List.map_append,
    List.getElem?_append_right (Nat.le_of_eq (List.length_map _)), List.length_map, Nat.sub_self,
    List.map_cons, List.getElem?_cons_zero]

theorem exception_of_lexemes (h : Delivers rd r s) (h' : Delivers rd' r' s')
    (hlexemes : (tokens filename s).map Token.lexeme = (tokens filename' s').map Token.lexeme)
    {e : Exception} (he : Settles (parse rd r filename) (.throw e)) :
    ∃ (i : Nat) (tok tok' : Token) (message : String), (tokens filename s)[i]? = some tok ∧
      (tokens filename' s')[i]? = some tok' ∧ e = .parse tok.start message ∧
      Settles (parse rd' r' filename') (.throw (.parse tok'.start message)) := by
  obtain ⟨next, after, fuel, t, ⟨before, hplaced⟩, hstops, _, hrun, htoks⟩ := throw_stops h he
  have hends : ∀ e : Exception, (.throw e : Outcome Exception AstRoot) ≠ .outOfFuel := by
    intro e h
    cases h
  obtain ⟨w, hview, _, hlike⟩ := document_follows fuel _ _ t hrun (hends e)
  have hleft : lexemes t = lexemesAt (next :: after) := by
    rw [lexemes, htoks, List.map_map]
    rfl
  -- The other run sees the same lexemes and so throws, with the same ones left.
  obtain ⟨o, t', hrun', hleft', hsame⟩ := hlike ⟨⟨filename', 1, 0⟩, tokens filename' s'⟩
    (lexemes t) (hlexemes.symm.trans hview) rfl
  cases hsame with
  | @throw _ e' _ _ hmessage =>
    obtain ⟨message, rfl, rfl⟩ := hmessage
    -- Its place has the same number.
    have hall : lexemesAt (placed 0 ⟨filename', 1, 0⟩ s') =
        lexemesAt before ++ lexemesAt (next :: after) := by
      rw [← lexemes_tokens, ← lexemesAt_append, hplaced, ← lexemes_tokens]
      exact hlexemes.symm
    obtain ⟨before', left', hplaced', hbefore', hnext'⟩ := List.map_eq_append_iff.mp hall
    obtain ⟨next', after', rfl, _, _⟩ := List.map_eq_cons_iff.mp hnext'
    have hlength : before'.length = before.length := by
      have hmapped := congrArg List.length hbefore'
      rwa [List.length_map, lexemesAt, List.length_map] at hmapped
    obtain ⟨hstops', hstart'⟩ := stops_place h' hrun' hplaced'
      ((hleft'.trans hleft).trans hnext'.symm)
    refine ⟨before.length, next.token, next'.token, message, token_at hplaced.symm, ?_, ?_, ?_⟩
    · rw [← hlength]
      exact token_at hplaced'
    · rw [htoks]
      rfl
    · rw [← hstart']
      have hsettles := (parse_settles_iff h' filename').mpr
        (Settles.of_extends (parseDocument_extends tokenLexer) fuel (by rw [hrun']; exact hends _))
      rw [hrun'] at hsettles
      exact hsettles

/-- Otherwise the other stream would settle the first one, too. -/
theorem hangs_of_lexemes (h : Delivers rd r s) (h' : Delivers rd' r' s')
    (hlexemes : (tokens filename s).map Token.lexeme = (tokens filename' s').map Token.lexeme)
    (hhangs : Settles (parse rd r filename) .outOfFuel) :
    Settles (parse rd' r' filename') .outOfFuel := by
  have hiff := fun o => parse_settles_iff h' filename' (o := o)
  rcases tokens_settle filename' s' with ⟨t', hset, _⟩ | ⟨e', hset, _⟩ | ⟨hset, _⟩
  · obtain ⟨t, ht, _⟩ := tree_of_lexemes h' h hlexemes.symm ((hiff _).mpr hset)
    cases ht.unique hhangs
  · obtain ⟨_, _, _, _, _, _, _, he⟩ :=
      exception_of_lexemes h' h hlexemes.symm ((hiff _).mpr hset)
    cases he.unique hhangs
  · exact (hiff _).mpr hset

theorem readAlike_of_lexemes (h : Delivers rd r s) (h' : Delivers rd' r' s')
    (hlexemes : (tokens filename s).map Token.lexeme = (tokens filename' s').map Token.lexeme) :
    ReadAlike rd r s filename rd' r' s' filename' where
  tree _ ht := tree_of_lexemes h h' hlexemes ht
  exception _ he := exception_of_lexemes h h' hlexemes he
  hangs hhangs := hangs_of_lexemes h h' hlexemes hhangs

end LayoutLemmas

open LayoutLemmas

/-- What a stream is read as, or where it is given up and why, or that the parser
never finishes on it, depends on its lexemes only: not on its layout, on its name
or on the reader. -/
theorem layout_ignored {ρ ρ' : Type} (rd : StreamReader ρ) (r : ρ) (rd' : StreamReader ρ') (r' : ρ')
    (s s' filename filename' : List UInt8) (h : Delivers rd r s) (h' : Delivers rd' r' s')
    (hlexemes : (tokens filename s).map Token.lexeme = (tokens filename' s').map Token.lexeme) :
    ReadAlike rd r s filename rd' r' s' filename' ∧ ReadAlike rd' r' s' filename' rd r s filename :=
  ⟨readAlike_of_lexemes h h' hlexemes, readAlike_of_lexemes h' h hlexemes.symm⟩

theorem layout_ignored_second_line :
    ReadAlike stdinReader includeExample includeExample [] byteReader secondLine secondLine [] ∧
      ReadAlike byteReader secondLine secondLine [] stdinReader includeExample includeExample [] :=
  layout_ignored stdinReader includeExample byteReader secondLine includeExample secondLine [] []
    (stdinReader_delivers _) (CorrectnessLemmas.byteReader_delivers _) (by decide)

end Ian.Happy
