import Ian.Happy.Placing
import Ian.Happy.Stopping
import Mathlib.Data.List.Count

/-!
# Exact positions

`skip_whitespace`, its comment loop and `advance` each count lines and columns
their own way. Here the position the parser has at the start of a token is
compared with the bytes before it: the line is always exact, and the column is
if every CR is followed by LF (a CR among blanks is not counted as a column). A
node of the tree has the position of its first token, and an exception that of
the token it is about (`positions_exact`).
-/

namespace Ian.Happy

open Ian.Lib Run Rule

/-- The line of offset `n`: one more than the LF bytes before it. -/
def exactLine (s : List UInt8) (n : Nat) : Nat := 1 + (s.take n).count lineFeed

/-- The column of offset `n`: how many bytes there are since the last LF. -/
def exactColumn (s : List UInt8) (n : Nat) : Nat :=
  ((s.take n).reverse.takeWhile (· != lineFeed)).length

/-- Every CR is immediately followed by LF. -/
def CrLf (s : List UInt8) : Prop :=
  ∀ n : Nat, s[n]? = some carriageReturn → s[n + 1]? = some lineFeed

/-- The position is that of offset `n`. -/
structure ExactAt (s : List UInt8) (n : Nat) (pos : DocumentPosition) : Prop where
  line : pos.line = exactLine s n
  column : CrLf s → pos.column = exactColumn s n

/-! ## The nodes of a tree -/

/-- A node that has an origin. -/
inductive Node where
  | inc (node : AstInclude)
  | struct (node : AstStruct)
  | structField (node : AstStructField)
  | mapping (node : AstMapping)
  | mappingField (node : AstMappingField)
  | encoding (node : AstEncoding)
  | encodingNode (node : AstEncodingNode)

def AstEncodingNode.origin : AstEncodingNode → DocumentPosition
  | .field origin _ _ => origin
  | .deltaBlock origin _ => origin

def Node.origin : Node → DocumentPosition
  | .inc node => node.origin
  | .struct node => node.origin
  | .structField node => node.origin
  | .mapping node => node.origin
  | .mappingField node => node.origin
  | .encoding node => node.origin
  | .encodingNode node => node.origin

/-- The nodes of a tree: encoding fields and `DELTA` blocks are found at any
depth. -/
inductive NodeOf (t : AstRoot) : Node → Prop
  | inc {node : AstInclude} : node ∈ t.includes → NodeOf t (.inc node)
  | struct {node : AstStruct} : node ∈ t.structDecls → NodeOf t (.struct node)
  | structField {node : AstStruct} {field : AstStructField} : node ∈ t.structDecls →
      field ∈ node.fields → NodeOf t (.structField field)
  | mapping {node : AstMapping} : node ∈ t.mapDecls → NodeOf t (.mapping node)
  | mappingField {node : AstMapping} {field : AstMappingField} : node ∈ t.mapDecls →
      field ∈ node.fields → NodeOf t (.mappingField field)
  | encoding {node : AstEncoding} : node ∈ t.encoDecls → NodeOf t (.encoding node)
  | encodingNode {node : AstEncoding} {inner : AstEncodingNode} : node ∈ t.encoDecls →
      inner ∈ node.fields → NodeOf t (.encodingNode inner)
  | delta {origin : DocumentPosition} {fields : List AstEncodingNode} {inner : AstEncodingNode} :
      NodeOf t (.encodingNode (.deltaBlock origin fields)) → inner ∈ fields →
      NodeOf t (.encodingNode inner)

/-- The node is read from `toks`, up to `rest`. -/
def Node.ReadFrom : Node → List Token → List Token → Prop
  | .inc node, toks, rest => includeRule toks node rest
  | .struct node, toks, rest => structRule toks node rest
  | .structField node, toks, rest => structFieldRule toks node rest
  | .mapping node, toks, rest => mappingRule toks node rest
  | .mappingField node, toks, rest => mappingFieldRule toks node rest
  | .encoding node, toks, rest => encodingRule toks node rest
  | .encodingNode node, toks, rest => EncodingNode toks node rest

namespace PositionsLemmas

open LexingLemmas ScanningLemmas PlacingLemmas StoppingLemmas DecidingLemmas

variable {s text : List UInt8} {n : Nat} {pos : DocumentPosition} {c : UInt8}

/-! ## Counting lines and columns -/

theorem take_succ (h : s[n]? = some c) : s.take (n + 1) = s.take n ++ [c] := by
  rw [List.take_add_one, h]
  rfl

theorem exactLine_succ (h : s[n]? = some c) :
    exactLine s (n + 1) = if c = lineFeed then exactLine s n + 1 else exactLine s n := by
  rw [exactLine, take_succ h, List.count_append, List.count_singleton, exactLine]
  by_cases hc : c = lineFeed
  · rw [if_pos hc, if_pos (by simpa using hc)]
    rfl
  · rw [if_neg hc, if_neg (by simpa using hc)]
    rfl

theorem exactColumn_succ (h : s[n]? = some c) :
    exactColumn s (n + 1) = if c = lineFeed then 0 else exactColumn s n + 1 := by
  rw [exactColumn, take_succ h, List.reverse_append, List.reverse_singleton, List.singleton_append]
  by_cases hc : c = lineFeed
  · rw [if_pos hc, List.takeWhile_cons_of_neg (by simpa using hc)]
    rfl
  · rw [if_neg hc, List.takeWhile_cons_of_pos (by simpa using hc)]
    rfl

/-- The byte at an offset, and what comes after it. -/
theorem drop_cons {cs : List UInt8} (h : s.drop n = c :: cs) :
    s[n]? = some c ∧ s.drop (n + 1) = cs := by
  refine ⟨?_, (getD_of_drop_cons h).2⟩
  rw [← Nat.add_zero n, ← List.getElem?_drop, h]
  rfl

/-- `advance` counts every byte of a token. -/
theorem after_exact (h : ExactAt s n pos) (hc : s[n]? = some c) :
    ExactAt s (n + 1) (pos.after c) := by
  refine ⟨?_, fun hcrlf => ?_⟩
  · rw [exactLine_succ hc, ← h.line]
    by_cases hlf : c = lineFeed
    · rw [if_pos hlf, hlf]
      rfl
    · rw [if_neg hlf, DocumentPosition.after, if_neg (by simpa using hlf)]
      rfl
  · rw [exactColumn_succ hc, ← h.column hcrlf]
    by_cases hlf : c = lineFeed
    · rw [if_pos hlf, hlf]
      rfl
    · rw [if_neg hlf, DocumentPosition.after, if_neg (by simpa using hlf)]
      rfl

theorem over_exact (h : ExactAt s n pos) (htext : s.drop n = text) {k : Nat}
    (hk : k ≤ text.length) : ExactAt s (n + k) (pos.over (text.take k)) := by
  induction k generalizing n pos text with
  | zero => exact h
  | succ k ih =>
    cases text with
    | nil => exact absurd hk (Nat.not_succ_le_zero k)
    | cons c cs =>
      obtain ⟨hc, hnext⟩ := drop_cons htext
      have hrest := ih (after_exact h hc) hnext (Nat.le_of_succ_le_succ hk)
      rw [Nat.add_assoc, Nat.add_comm 1] at hrest
      exact hrest

/-- Inside a run of blanks the column is exact, except between a CR, which is
not counted, and the LF after it. -/
structure BlankAt (s : List UInt8) (n : Nat) (pos : DocumentPosition) : Prop where
  line : pos.line = exactLine s n
  column : CrLf s → s[n]? = some lineFeed ∨ pos.column = exactColumn s n

theorem blankAt_lineFeed (h : BlankAt s n pos) (hc : s[n]? = some lineFeed) :
    BlankAt s (n + 1) pos.nextLine := by
  refine ⟨?_, fun _ => Or.inr ?_⟩
  · rw [exactLine_succ hc, if_pos rfl, ← h.line]
    rfl
  · rw [exactColumn_succ hc, if_pos rfl]
    rfl

theorem blankAt_carriageReturn (h : BlankAt s n pos) (hc : s[n]? = some carriageReturn) :
    BlankAt s (n + 1) pos := by
  refine ⟨?_, fun hcrlf => Or.inl (hcrlf n hc)⟩
  rw [exactLine_succ hc, if_neg (by decide)]
  exact h.line

theorem blankAt_column (h : BlankAt s n pos) (hc : s[n]? = some c) (hlf : c ≠ lineFeed) :
    BlankAt s (n + 1) pos.nextColumn := by
  refine ⟨?_, fun hcrlf => Or.inr ?_⟩
  · rw [exactLine_succ hc, if_neg hlf]
    exact h.line
  · rw [exactColumn_succ hc, if_neg hlf]
    rcases h.column hcrlf with hnext | hcolumn
    · exact absurd (Option.some.inj (hc.symm.trans hnext)) hlf
    · rw [← hcolumn]
      rfl

/-- `skip_whitespace` ends at an exact position. -/
theorem skipBlank_exact (comment : Bool) (h : BlankAt s n pos) (htext : s.drop n = text) :
    ExactAt s (n + (skipBlank comment pos text).2) (skipBlank comment pos text).1 := by
  have hblanks := skipBlank_blanks comment pos text
  generalize skipBlank comment pos text = r at hblanks
  induction hblanks generalizing n with
  | @stop _ pos text hend =>
    refine ⟨h.line, fun hcrlf => (h.column hcrlf).resolve_left fun hlf => ?_⟩
    -- The byte at which the blanks end is no line feed.
    rw [← Nat.add_zero n, ← List.getElem?_drop, htext, ← List.head?_eq_getElem?] at hlf
    exact absurd (hend lineFeed hlf).1 (by decide)
  | @blank _ _ pos pos' c cs r hblank _ ih =>
    obtain ⟨hc, hnext⟩ := drop_cons htext
    have hpos : BlankAt s (n + 1) pos' := by
      cases hblank with
      | lf => exact blankAt_lineFeed h hc
      | cr => exact blankAt_carriageReturn h hc
      | inside hlf _ _ => exact blankAt_column h hc hlf
      | space hspace =>
        exact blankAt_column h hc (by rcases hspace with rfl | rfl <;> decide)
      | mark => exact blankAt_column h hc (by decide)
    have hrest := ih hpos hnext
    rw [Nat.add_assoc, Nat.add_comm 1] at hrest
    exact hrest

/-- Every token starts at an exact position. -/
theorem placed_exact (filename : List UInt8) {next : Place}
    (h : next ∈ placed 0 ⟨filename, 1, 0⟩ s) : ExactAt s next.offset next.token.start := by
  obtain ⟨rest, ⟨_, hexact⟩, _⟩ := placed_forall
    (P := fun n pos text => s.drop n = text ∧ ExactAt s n pos)
    (fun n pos text ⟨htext, hexact⟩ => ⟨by rw [← htext, List.drop_drop], by
      rw [← blankLength_eq pos]
      exact skipBlank_exact false ⟨hexact.line, fun hcrlf => Or.inr (hexact.column hcrlf)⟩ htext⟩)
    (fun n pos text ⟨htext, hexact⟩ hlen => ⟨by rw [← htext, List.drop_drop],
      over_exact hexact htext (lexeme_le text)⟩)
    ⟨rfl, rfl, fun _ => rfl⟩ next h
  exact hexact

/-! ## The first token of a node -/

/-- The tree has the declaration. -/
def Declares (t : AstRoot) : Decl → Prop
  | .struct node => node ∈ t.structDecls
  | .mapping node => node ∈ t.mapDecls
  | .encoding node => node ∈ t.encoDecls

theorem declares_foldl {decls : List Decl} {root : AstRoot} {decl : Decl}
    (h : Declares (decls.foldl AstRoot.declare root) decl) : Declares root decl ∨ decl ∈ decls := by
  induction decls generalizing root with
  | nil => exact Or.inl h
  | cons first decls ih =>
    rcases ih h with h | h
    · have hfirst : Declares root decl ∨ decl = first := by
        cases first <;> cases decl <;> simpa [Declares, AstRoot.declare] using h
      exact hfirst.imp_right fun heq => List.mem_cons.mpr (Or.inl heq)
    · exact Or.inr (.tail _ h)

theorem foldl_includes (decls : List Decl) (root : AstRoot) :
    (decls.foldl AstRoot.declare root).includes = root.includes := by
  induction decls generalizing root with
  | nil => rfl
  | cons decl decls ih => exact (ih _).trans (by cases decl <;> rfl)

variable {toks rest : List Token} {filename : List UInt8} {t : AstRoot}

/-- Where the includes and the declarations of a document are read. -/
theorem derives_parts (h : Derives filename toks t) :
    (∃ last, many includeRule toks t.includes last) ∧
    ∃ start decls last, start <:+ toks ∧ many declRule start decls last ∧
      ∀ decl, Declares t decl → decl ∈ decls := by
  obtain ⟨_, includes, mid, hincludes, space, start, hspace, decls, last, hdecls, _, _, _, rfl,
    _⟩ := h
  refine ⟨⟨mid, ?_⟩, start, decls, last, ?_, hdecls, fun decl hdecl => ?_⟩
  · rw [foldl_includes]
    exact hincludes
  · exact (namespace_takes _ _ _ hspace).1.trans (Takes.many include_takes _ _ _ hincludes).1
  · refine (declares_foldl hdecl).resolve_left ?_
    cases decl <;> exact List.not_mem_nil

theorem derives_include (h : Derives filename toks t) {node : AstInclude}
    (hnode : node ∈ t.includes) : ∃ start stop, start <:+ toks ∧ includeRule start node stop := by
  obtain ⟨⟨_, hincludes⟩, _⟩ := derives_parts h
  exact Takes.mem include_takes hincludes hnode

/-- A declaration as a node. -/
def declNode : Decl → Node
  | .struct node => .struct node
  | .mapping node => .mapping node
  | .encoding node => .encoding node

theorem derives_decl (h : Derives filename toks t) (decl : Decl) (hdecl : Declares t decl) :
    ∃ start stop, start <:+ toks ∧ (declNode decl).ReadFrom start stop := by
  obtain ⟨_, start, decls, last, hsuf, hdecls, hall⟩ := derives_parts h
  obtain ⟨start', stop, hsuf', hread⟩ := Takes.mem decl_takes hdecls (hall decl hdecl)
  refine ⟨start', stop, hsuf'.trans hsuf, ?_⟩
  rcases decl_cases hread with ⟨_, rfl, hread, _⟩ | ⟨_, rfl, hread, _⟩ | ⟨_, rfl, hread, _⟩
  · exact hread
  · exact hread
  · exact hread

/-- The fields of a struct are read inside it. -/
theorem struct_fields : Contains (many structFieldRule) AstStruct.fields structRule :=
  Contains.later start_takes fun _ => Contains.later (terminal_takes _) fun _ =>
    Contains.later (terminal_takes _) fun _ => Contains.later (terminal_takes _) fun _ =>
      Contains.next fun _ => Yields.bind fun _ => Yields.pure rfl

theorem mapping_fields : Contains (many mappingFieldRule) AstMapping.fields mappingRule :=
  Contains.later start_takes fun _ => Contains.later (terminal_takes _) fun _ =>
    Contains.later (terminal_takes _) fun _ => Contains.later (terminal_takes _) fun _ =>
      Contains.later qual_takes fun _ => Contains.later (terminal_takes _) fun _ =>
        Contains.next fun _ => Yields.bind fun _ => Yields.pure rfl

theorem encoding_fields : Contains (many EncodingNode) AstEncoding.fields encodingRule :=
  Contains.later start_takes fun _ => Contains.later (terminal_takes _) fun _ =>
    Contains.later (terminal_takes _) fun _ => Contains.later encodingName_takes fun _ =>
      Contains.later (terminal_takes _) fun _ =>
        Contains.next fun _ => Yields.bind fun _ => Yields.pure rfl

theorem delta_fields {origin : DocumentPosition} {fields : List AstEncodingNode}
    (h : EncodingNode toks (.deltaBlock origin fields) rest) :
    ∃ start last, start <:+ toks ∧ many EncodingNode start fields last := by
  cases h with
  | field h =>
    obtain ⟨_, _, _, _, _, _, _, _, _, heq, _⟩ := h
    cases heq
  | @deltaField _ mid _ node hkw hfield =>
    exact ⟨mid, _, (terminal_takes _ _ _ _ hkw).1, .cons (.field hfield) (.nil _)⟩
  | @deltaBlock _ mid inner last _ _ hkw hopen hnodes _ =>
    exact ⟨inner, last, (terminal_takes _ _ _ _ hopen).1.trans (terminal_takes _ _ _ _ hkw).1,
      hnodes⟩

/-- Every node of a tree is read from some token of the sequence on. -/
theorem node_read (h : Derives filename toks t) {x : Node} (hx : NodeOf t x) :
    ∃ start stop, start <:+ toks ∧ x.ReadFrom start stop := by
  have hnodes : Takes 1 EncodingNode := fun _ _ _ => encodingNode_takes
  induction hx with
  | inc hnode => exact derives_include h hnode
  | struct hnode => exact derives_decl h (.struct _) hnode
  | mapping hnode => exact derives_decl h (.mapping _) hnode
  | encoding hnode => exact derives_decl h (.encoding _) hnode
  | structField hnode hfield =>
    obtain ⟨_, _, hsuf, hread⟩ := derives_decl h (.struct _) hnode
    obtain ⟨_, _, hsuf', hfields⟩ := struct_fields _ _ _ hread
    obtain ⟨start, stop, hsuf'', hread'⟩ := Takes.mem structField_takes hfields hfield
    exact ⟨start, stop, hsuf''.trans (hsuf'.trans hsuf), hread'⟩
  | mappingField hnode hfield =>
    obtain ⟨_, _, hsuf, hread⟩ := derives_decl h (.mapping _) hnode
    obtain ⟨_, _, hsuf', hfields⟩ := mapping_fields _ _ _ hread
    obtain ⟨start, stop, hsuf'', hread'⟩ := Takes.mem mappingField_takes hfields hfield
    exact ⟨start, stop, hsuf''.trans (hsuf'.trans hsuf), hread'⟩
  | encodingNode hnode hinner =>
    obtain ⟨_, _, hsuf, hread⟩ := derives_decl h (.encoding _) hnode
    obtain ⟨_, _, hsuf', hfields⟩ := encoding_fields _ _ _ hread
    obtain ⟨start, stop, hsuf'', hread'⟩ := Takes.mem hnodes hfields hinner
    exact ⟨start, stop, hsuf''.trans (hsuf'.trans hsuf), hread'⟩
  | delta _ hinner ih =>
    obtain ⟨_, _, hsuf, hread⟩ := ih
    obtain ⟨_, _, hsuf', hfields⟩ := delta_fields hread
    obtain ⟨start, stop, hsuf'', hread'⟩ := Takes.mem hnodes hfields hinner
    exact ⟨start, stop, hsuf''.trans (hsuf'.trans hsuf), hread'⟩

/-- A rule that notes where it starts. -/
theorem origin_start {α : Type} {f : DocumentPosition → Rule Token α}
    (origin : α → DocumentPosition) (hf : ∀ pos, Yields (fun a => origin a = pos) (f pos))
    {a : α} (h : (startRule >>= f) toks a rest) : origin a = startOf toks := by
  obtain ⟨pos, mid, ⟨rfl, -⟩, ha⟩ := h
  exact hf _ mid a rest ha

/-- A node's origin is where the tokens it is read from start. -/
theorem read_origin {x : Node} (h : x.ReadFrom toks rest) : x.origin = startOf toks := by
  cases x with
  | inc node =>
    exact origin_start AstInclude.origin
      (fun _ => Yields.bind fun _ => Yields.bind fun _ => Yields.pure rfl) h
  | struct node =>
    exact origin_start AstStruct.origin (fun _ => Yields.bind fun _ => Yields.bind fun _ =>
      Yields.bind fun _ => Yields.bind fun _ => Yields.bind fun _ => Yields.pure rfl) h
  | structField node =>
    exact origin_start AstStructField.origin
      (fun _ => Yields.bind fun _ => Yields.bind fun _ => Yields.bind fun _ => Yields.pure rfl) h
  | mapping node =>
    exact origin_start AstMapping.origin (fun _ => Yields.bind fun _ => Yields.bind fun _ =>
      Yields.bind fun _ => Yields.bind fun _ => Yields.bind fun _ => Yields.bind fun _ =>
        Yields.bind fun _ => Yields.pure rfl) h
  | mappingField node =>
    exact origin_start AstMappingField.origin
      (fun _ => Yields.bind fun _ => Yields.bind fun _ => Yields.bind fun _ => Yields.pure rfl) h
  | encoding node =>
    exact origin_start AstEncoding.origin (fun _ => Yields.bind fun _ => Yields.bind fun _ =>
      Yields.bind fun _ => Yields.bind fun _ => Yields.bind fun _ => Yields.bind fun _ =>
        Yields.pure rfl) h
  | encodingNode node =>
    cases h with
    | field h =>
      exact origin_start AstEncodingNode.origin
        (fun _ => Yields.bind fun _ => Yields.bind fun _ => Yields.pure rfl) h
    | deltaField _ _ => rfl
    | deltaBlock _ _ _ _ => rfl

theorem read_nonempty {x : Node} (h : x.ReadFrom toks rest) : toks ≠ [] := by
  have hlen : rest.length + 1 ≤ toks.length := by
    cases x with
    | inc node => exact (include_takes _ _ _ h).2
    | struct node => exact (struct_takes _ _ _ h).2
    | structField node => exact (structField_takes _ _ _ h).2
    | mapping node => exact (mapping_takes _ _ _ h).2
    | mappingField node => exact (mappingField_takes _ _ _ h).2
    | encoding node => exact (encoding_takes _ _ _ h).2
    | encodingNode node => exact (encodingNode_takes h).2
  rintro rfl
  exact absurd hlen (Nat.not_succ_le_zero _)

/-- A suffix of the token sequence is a suffix of the places. -/
theorem suffix_placed {places : List Place} (h : toks <:+ places.map Place.token)
    (hne : toks ≠ []) : ∃ before next after, places = before ++ next :: after ∧
      toks = (next :: after).map Place.token := by
  obtain ⟨skipped, h⟩ := h
  obtain ⟨before, left, rfl, -, hleft⟩ := List.map_eq_append_iff.mp h.symm
  cases left with
  | nil => exact absurd hleft.symm hne
  | cons next after => exact ⟨before, next, after, rfl, hleft.symm⟩

end PositionsLemmas

open PlacingLemmas StoppingLemmas PositionsLemmas

/-! ## Origins and exceptions -/

/-- The node `x` is read from the place `next` on, the first of its tokens. -/
def FirstToken (s filename : List UInt8) (x : Node) (next : Place) : Prop :=
  ∃ before after rest, placed 0 ⟨filename, 1, 0⟩ s = before ++ next :: after ∧
    x.ReadFrom ((next :: after).map Place.token) rest

/-- The parser throws `e` with its cursor at the place `next`: a
`ParseException` with the position of the token there, whose symbol it names. -/
structure StopsAt {ρ : Type} (rd : StreamReader ρ) (r : ρ) (s filename : List UInt8)
    (e : Exception) (next : Place) : Prop where
  token : next ∈ placed 0 ⟨filename, 1, 0⟩ s
  text : ∃ tail, e = .parse next.token.start (unexpectedText next.token.lexeme.symbol tail)
  cursor : ∃ enough, ∀ fuel, enough ≤ fuel →
    Holds rd (parseFrom (bufferSource rd fuel) (Buffer.init r) filename fuel).2.source
      (s.drop next.offset)

namespace PositionsLemmas

variable {ρ : Type} {rd : StreamReader ρ} {r : ρ} {s filename : List UInt8} {e : Exception}

/-- An exception is thrown at the first token that is still to come. -/
theorem throw_stops (h : Delivers rd r s) (he : Settles (parse rd r filename) (.throw e)) :
    ∃ next after fuel t, next :: after <:+ placed 0 ⟨filename, 1, 0⟩ s ∧
      StopsAt rd r s filename e next ∧ s.length + 2 ≤ fuel ∧
      (parseDocument tokenLexer fuel).run ⟨⟨filename, 1, 0⟩, tokens filename s⟩ = (.throw e, t) ∧
      t.toks = (next :: after).map Place.token := by
  obtain ⟨enough, he⟩ := he
  have hblames : ∀ fuel, enough ≤ fuel →
      Blames e (parseFrom (bufferSource rd fuel) (Buffer.init r) filename fuel).2 := fun fuel hf =>
    parseDocument_throws (scanner_stops (bufferSource_silent rd fuel) fuel) fuel
      (Parser.init filename (Buffer.init r)) e _ (Prod.ext (he fuel hf) rfl)
  obtain ⟨most, hmost⟩ : ∃ most, most = max (s.length + 2) enough := ⟨_, rfl⟩
  obtain ⟨hrun, n, hstands⟩ := parse_stands h filename (show s.length < most by omega)
  obtain ⟨hcached, tail, htext⟩ := hblames most (by omega)
  obtain ⟨next, after, hsuffix, rfl, hstart, hsymbol, htoks⟩ := stands_place hstands hcached
  have hthrow := hrun.symm.trans (he most (by omega))
  refine ⟨next, after, most, _, hsuffix, ⟨hsuffix.subset List.mem_cons_self, ⟨tail, ?_⟩, most,
    fun fuel hfuel => ?_⟩, by omega, Prod.ext hthrow rfl, htoks⟩
  · rw [htext, hstart, hsymbol]
  · -- More fuel changes nothing, so the parser stops at the same token.
    obtain ⟨_, n', hstands'⟩ := parse_stands h filename (show s.length < fuel by omega)
    rw [parseDocument_extends tokenLexer most fuel hfuel _ (by rw [hthrow]; nofun)] at hstands'
    have hoffset := stands_offset hstands' (hblames fuel (by omega)).cached hsuffix
      (by rw [htoks, List.length_map, List.length_cons])
    exact hoffset ▸ hstands'.holds

end PositionsLemmas

/-- Positions are exact: the origin of every node is the position of its first
token, and a `ParseException` has the position of the token it is about. -/
theorem positions_exact {ρ : Type} (rd : StreamReader ρ) (r : ρ) (s filename : List UInt8)
    (h : Delivers rd r s) :
    (∀ t, Settles (parse rd r filename) (.ok t) → ∀ x, NodeOf t x →
      ∃ next, FirstToken s filename x next ∧ ExactAt s next.offset x.origin) ∧
    ∀ e, Settles (parse rd r filename) (.throw e) →
      ∃ next position message, StopsAt rd r s filename e next ∧ e = .parse position message ∧
        ExactAt s next.offset position := by
  constructor
  · intro t ht x hx
    have hder := (CorrectnessLemmas.settles_iff_derives h filename t).mp ht
    obtain ⟨start, stop, hsuffix, hread⟩ := node_read hder hx
    rw [tokens, ← placed_token 0] at hsuffix
    obtain ⟨before, next, after, hplaced, rfl⟩ := suffix_placed hsuffix (read_nonempty hread)
    refine ⟨next, ⟨before, after, stop, hplaced, hread⟩, ?_⟩
    rw [read_origin hread]
    exact placed_exact filename (hplaced ▸ List.mem_append_right _ List.mem_cons_self)
  · intro e he
    obtain ⟨next, _, _, _, _, hstops, _⟩ := throw_stops h he
    obtain ⟨tail, rfl⟩ := hstops.text
    exact ⟨next, _, _, hstops, rfl, placed_exact filename hstops.token⟩

/-- An include on the second line. -/
def secondLine : List UInt8 := carriageReturn :: lineFeed :: includeExample

/-- Its node. -/
def secondLineNode : AstInclude := ⟨⟨[], 2, 0⟩, [Char.toUInt8 'a']⟩

theorem positions_exact_second_line :
    ∃ next, FirstToken secondLine [] (.inc secondLineNode) next ∧
      ExactAt secondLine next.offset ⟨[], 2, 0⟩ := by
  have htokens : tokens [] secondLine =
      [⟨.fixed .includeKw, ⟨[], 2, 0⟩, ⟨[], 2, 7⟩⟩,
        ⟨.string [Char.toUInt8 'a'], ⟨[], 2, 8⟩, ⟨[], 2, 11⟩⟩,
        ⟨.eof, ⟨[], 2, 11⟩, ⟨[], 2, 11⟩⟩] := by decide
  have ht := (CorrectnessLemmas.settles_iff_derives (stdinReader_delivers secondLine) []
    { origin := ⟨[], 1, 0⟩, includes := [secondLineNode], space := ⟨[], []⟩, structDecls := [],
      mapDecls := [], encoDecls := [] }).mpr (by
    rw [htokens]
    exact ⟨_, [_], _, .cons ⟨_, _, ⟨rfl, rfl⟩, (), _, ⟨_, rfl, rfl⟩, _, _, ⟨_, rfl, rfl⟩, rfl, rfl⟩
      (.nil _), _, _, Or.inr ⟨rfl, rfl⟩, [], _, .nil _, (), _, ⟨rfl, rfl⟩, rfl, rfl⟩)
  exact (positions_exact stdinReader secondLine secondLine [] (stdinReader_delivers _)).1 _ ht
    (.inc secondLineNode) (.inc List.mem_cons_self)

end Ian.Happy
