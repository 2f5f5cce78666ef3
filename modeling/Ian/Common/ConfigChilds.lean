import Ian.Common.Config

/-!
# The children of a configuration node

`config::get_childs` and `ConfigGroup`. A group is the dotted path of its child
written out, and everything it reads is looked up from the root again. So it
reads its own child if the path leads there: if no separator stands in the key
or ends the path of the parent, and no earlier child has the same key.
`getChilds_read_iff` says exactly when: the node that the path, split at every
'.', leads to must have the same content as the child, as far as paths can see.
-/

namespace Ian.Common

namespace Ptree

/-! ## What paths can see -/

def names (tree : Ptree) : List (List UInt8) := tree.childs.map Prod.fst

/-- What a lookup sees of a node: its data and the keys of its children. -/
def shape (tree : Ptree) : List UInt8 × List (List UInt8) := (tree.data, tree.names)

mutual
/-- The tree without what no path leads to: below a key with a separator in it
and below the key of an earlier child. -/
def visible : Ptree → Ptree
  | node data childs => node data (visibleChilds [] childs)

def visibleChilds (before : List (List UInt8)) :
    List (List UInt8 × Ptree) → List (List UInt8 × Ptree)
  | [] => []
  | (key, child) :: childs =>
    (key, if dot ∈ key ∨ key ∈ before then empty else child.visible) ::
      visibleChilds (key :: before) childs
end

theorem visibleChilds_names (before : List (List UInt8)) (childs : List (List UInt8 × Ptree)) :
    (visibleChilds before childs).map Prod.fst = childs.map Prod.fst := by
  induction childs generalizing before with
  | nil => rfl
  | cons child childs ih =>
    rw [visibleChilds, List.map_cons, List.map_cons, ih]

theorem visible_shape (tree : Ptree) : tree.visible.shape = tree.shape := by
  obtain ⟨data, childs⟩ := tree
  show (data, (visibleChilds [] childs).map Prod.fst) = (data, childs.map Prod.fst)
  rw [visibleChilds_names]

theorem visibleChilds_find {key : List UInt8} (hdot : dot ∉ key) {before : List (List UInt8)}
    (hbefore : key ∉ before) (childs : List (List UInt8 × Ptree)) :
    ((visibleChilds before childs).find? fun child => child.1 == key).map Prod.snd =
      ((childs.find? fun child => child.1 == key).map Prod.snd).map visible := by
  induction childs generalizing before with
  | nil => rfl
  | cons child childs ih =>
    obtain ⟨k, tree⟩ := child
    by_cases hk : k = key
    · subst hk
      simp [visibleChilds, hdot, hbefore]
    · have hbefore' : key ∉ k :: before := by
        rw [List.mem_cons, not_or]
        exact ⟨fun h => hk h.symm, hbefore⟩
      rw [visibleChilds, List.find?_cons_of_neg (by simp [hk]),
        List.find?_cons_of_neg (by simp [hk]), ih hbefore']

theorem visible_find {key : List UInt8} (hdot : dot ∉ key) (tree : Ptree) :
    tree.visible.find key = (tree.find key).map visible := by
  obtain ⟨data, childs⟩ := tree
  exact visibleChilds_find hdot List.not_mem_nil childs

/-- A path without separators in its fragments sees no difference. -/
theorem walkPath_visible {path : List (List UInt8)} (hpath : ∀ key ∈ path, dot ∉ key)
    (tree : Ptree) : tree.visible.walkPath path = (tree.walkPath path).map visible := by
  induction path generalizing tree with
  | nil => rfl
  | cons key path ih =>
    obtain ⟨hkey, hrest⟩ := List.forall_mem_cons.mp hpath
    rw [walkPath, walkPath, visible_find hkey]
    cases tree.find key with
    | none => rfl
    | some child => exact ih hrest child

theorem walkPath_append (tree : Ptree) (path more : List (List UInt8)) :
    tree.walkPath (path ++ more) = (tree.walkPath path).bind fun child => child.walkPath more := by
  induction path generalizing tree with
  | nil => rfl
  | cons key path ih =>
    rw [List.cons_append, walkPath, walkPath, Option.bind_assoc]
    congr 1
    funext child
    exact ih child

/-- Two trees look alike to every path. -/
def Alike (a b : Ptree) : Prop :=
  ∀ path : List (List UInt8), (∀ key ∈ path, dot ∉ key) →
    (a.walkPath path).map shape = (b.walkPath path).map shape

theorem alike_of_visible {a b : Ptree} (h : a.visible = b.visible) : Alike a b := by
  intro path hpath
  have hshape : shape ∘ visible = shape := funext visible_shape
  have hwalk : (a.walkPath path).map visible = (b.walkPath path).map visible := by
    rw [← walkPath_visible hpath a, ← walkPath_visible hpath b, h]
  calc (a.walkPath path).map shape
      = ((a.walkPath path).map visible).map shape := by rw [Option.map_map, hshape]
    _ = (b.walkPath path).map shape := by rw [hwalk, Option.map_map, hshape]

/-! Trees that look alike have the same visible content. -/

theorem Alike.find {a b : Ptree} (h : Alike a b) {key : List UInt8} (hdot : dot ∉ key)
    {path : List (List UInt8)} (hpath : ∀ key ∈ path, dot ∉ key) :
    ((a.find key).bind fun child => child.walkPath path).map shape =
      ((b.find key).bind fun child => child.walkPath path).map shape :=
  h (key :: path) (List.forall_mem_cons.mpr ⟨hdot, hpath⟩)

mutual
theorem visible_of_alike : ∀ {a b : Ptree}, Alike a b → a.visible = b.visible
  | node data childs, node data' childs', h => by
    have hshape : (data, childs.map Prod.fst) = (data', childs'.map Prod.fst) := by
      simpa [walkPath, shape, names, Ptree.data, Ptree.childs] using h [] nofun
    obtain ⟨rfl, hnames⟩ := Prod.mk.injEq .. ▸ hshape
    rw [visible, visible, visibleChilds_of_alike hnames]
    intro key hdot _ path hpath
    have := h.find hdot hpath
    rw [Ptree.find, Ptree.find] at this
    exact this

theorem visibleChilds_of_alike : ∀ {before : List (List UInt8)}
    {childs childs' : List (List UInt8 × Ptree)},
    childs.map Prod.fst = childs'.map Prod.fst →
    (∀ key, dot ∉ key → key ∉ before → ∀ path : List (List UInt8), (∀ key ∈ path, dot ∉ key) →
      (((childs.find? fun child => child.1 == key).map Prod.snd).bind
          fun child => child.walkPath path).map shape =
        (((childs'.find? fun child => child.1 == key).map Prod.snd).bind
          fun child => child.walkPath path).map shape) →
    visibleChilds before childs = visibleChilds before childs'
  | _, [], [], _, _ => rfl
  | before, (key, child) :: childs, (key', child') :: childs', hnames, h => by
    obtain ⟨rfl, hnames'⟩ := List.cons.inj hnames
    rw [visibleChilds, visibleChilds]
    congr 1
    · congr 1
      split
      · rfl
      · next hseen =>
        obtain ⟨hdot, hbefore⟩ := not_or.mp hseen
        refine visible_of_alike fun path hpath => ?_
        simpa using h key hdot hbefore path hpath
    · refine visibleChilds_of_alike hnames' fun k hdot hk path hpath => ?_
      obtain ⟨hne, hbefore⟩ := not_or.mp (List.mem_cons.not.mp hk)
      have hfind := h k hdot hbefore path hpath
      rw [List.find?_cons_of_neg (by simpa using Ne.symm hne),
        List.find?_cons_of_neg (by simpa using Ne.symm hne)] at hfind
      exact hfind
end

theorem visible_eq_iff {a b : Ptree} : a.visible = b.visible ↔ Alike a b :=
  ⟨alike_of_visible, visible_of_alike⟩

end Ptree

/-! ## Paths -/

theorem components_join (path more : List UInt8) :
    components (path ++ dot :: more) = path.splitOn dot ++ components more := by
  unfold components
  have hne := List.splitOn_ne_nil dot more
  rw [List.splitOn_append_cons_self, List.getLast?_append_of_ne_nil _ hne]
  split
  · rw [List.dropLast_append_of_ne_nil hne]
  · rfl

theorem splitOn_fragments (path : List UInt8) : ∀ key ∈ path.splitOn dot, dot ∉ key := by
  induction path with
  | nil =>
    intro key hkey
    rw [List.splitOn_nil, List.mem_singleton] at hkey
    rw [hkey]
    exact List.not_mem_nil
  | cons c path ih =>
    intro key hkey
    rw [List.splitOn_cons_eq_if_modifyHead] at hkey
    split at hkey
    · obtain rfl | hkey := List.mem_cons.mp hkey
      · exact List.not_mem_nil
      · exact ih key hkey
    · next hc =>
      obtain ⟨first, rest, hsplit⟩ := List.exists_cons_of_ne_nil (List.splitOn_ne_nil dot path)
      rw [hsplit] at ih hkey
      obtain ⟨hfirst, hrest⟩ := List.forall_mem_cons.mp ih
      obtain rfl | hkey := List.mem_cons.mp hkey
      · rw [List.mem_cons, not_or]
        exact ⟨fun h => hc (beq_iff_eq.mpr h.symm), hfirst⟩
      · exact hrest key hkey

theorem components_fragments (path : List UInt8) : ∀ key ∈ components path, dot ∉ key := by
  intro key hkey
  unfold components at hkey
  split at hkey
  · exact splitOn_fragments path key (List.dropLast_subset _ hkey)
  · exact splitOn_fragments path key hkey

/-- Every sequence of fragments is spelled by a path. -/
theorem exists_components {path : List (List UInt8)} (hpath : ∀ key ∈ path, dot ∉ key) :
    ∃ text, components text = path := by
  refine ⟨[dot].intercalate (path ++ [[]]), ?_⟩
  have hsplit : ([dot].intercalate (path ++ [[]])).splitOn dot = path ++ [[]] := by
    refine List.splitOn_intercalate dot ?_ (by simp)
    intro key hkey
    obtain hkey | hkey := List.mem_append.mp hkey
    · exact hpath key hkey
    · rw [List.mem_singleton.mp hkey]
      exact List.not_mem_nil
  unfold components
  rw [hsplit, List.getLast?_concat, if_pos rfl, List.dropLast_concat]

/-! ## Groups -/

/-- The children of the node at a path. -/
def childsAt (tree : Ptree) (path : List UInt8) : List (List UInt8 × Ptree) :=
  ((tree.getChildOptional path).getD Ptree.empty).childs

/-- The group made by `get_group` with the given paths, one after the other. -/
def ConfigGroup.nested (group : ConfigGroup) (paths : List (List UInt8)) : ConfigGroup :=
  paths.foldl ConfigGroup.getGroup group

/-- The same place seen from where the groups begin. -/
def nestedPath (paths : List (List UInt8)) (path : List UInt8) : List UInt8 :=
  paths.foldr (fun p path => p ++ dot :: path) path

/-- Everything read through the group, and through the groups nested in it, is
what the lookup in the subtree gives; `get_childs()` too, unless the path of the
group ends with a separator. -/
structure ConfigGroup.Reads (tr : Translator) (tree : Ptree) (group : ConfigGroup) (sub : Ptree) :
    Prop where
  bool : ∀ paths path defaultVal,
    ((group.nested paths).getBool tr tree path defaultVal).value =
      Common.getBool tr sub (nestedPath paths path) defaultVal
  boolValue : ∀ paths path defaultVal,
    (group.nested paths).getBoolValue tr tree path defaultVal =
      Common.getBool tr sub (nestedPath paths path) defaultVal
  string : ∀ paths path defaultVal,
    ((group.nested paths).getString tree path defaultVal).value =
      Common.getString sub (nestedPath paths path) defaultVal
  stringValue : ∀ paths path defaultVal,
    (group.nested paths).getStringValue tree path defaultVal =
      Common.getString sub (nestedPath paths path) defaultVal
  int : ∀ paths path defaultVal,
    ((group.nested paths).getInt tr tree path defaultVal).value =
      Common.getInt tr sub (nestedPath paths path) defaultVal
  intValue : ∀ paths path defaultVal,
    (group.nested paths).getIntValue tr tree path defaultVal =
      Common.getInt tr sub (nestedPath paths path) defaultVal
  childs : ∀ paths path,
    (group.nested paths).getChilds tree path =
      (Common.getChilds sub (nestedPath paths path)).map fun child => group.getGroup child.path
  ownChilds : (group.path.splitOn dot).getLast? ≠ some [] →
    group.childs tree = sub.names.map group.getGroup

/-- `get_childs(path)` gives a group for each child, in order, that reads the
child. -/
def ChildsRead (tr : Translator) (tree : Ptree) (path : List UInt8) : Prop :=
  List.Forall₂ (fun group child => ConfigGroup.Reads tr tree group child.2) (getChilds tree path)
    (childsAt tree path)

/-- The path of the child, split at every separator, leads to a node with the
content of the child. -/
def Leads (tree : Ptree) (path : List UInt8) (child : List UInt8 × Ptree) : Prop :=
  (tree.walkPath ((path ++ dot :: child.1).splitOn dot)).map Ptree.visible = some child.2.visible

namespace ConfigLemmas

variable {tr : Translator} {tree sub : Ptree} {group : ConfigGroup}

theorem nested_join (group : ConfigGroup) (paths : List (List UInt8)) (path : List UInt8) :
    (group.nested paths).join path = group.join (nestedPath paths path) := by
  induction paths generalizing group with
  | nil => rfl
  | cons p paths ih =>
    show ((group.getGroup p).nested paths).join path = _
    rw [ih]
    show (group.path ++ dot :: p) ++ dot :: nestedPath paths path =
      group.path ++ dot :: (p ++ dot :: nestedPath paths path)
    rw [List.append_assoc, List.cons_append]

/-- Where a group looks: below the node its own path leads to. -/
theorem getChildOptional_join (tree : Ptree) (group : ConfigGroup) (path : List UInt8) :
    tree.getChildOptional (group.join path) =
      (tree.walkPath (group.path.splitOn dot)).bind fun child => child.getChildOptional path := by
  unfold Ptree.getChildOptional ConfigGroup.join
  rw [components_join, Ptree.walkPath_append]

/-- A lookup depends on the shape of the node it finds. -/
theorem get_eq_of_shape {α : Type} {convert : List UInt8 → Option α} {a b : Ptree}
    {path path' : List UInt8}
    (h : (a.getChildOptional path).map Ptree.shape = (b.getChildOptional path').map Ptree.shape)
    (defaultVal : α) : a.get convert path defaultVal = b.get convert path' defaultVal := by
  have hdata := congrArg (Option.map Prod.fst) h
  rw [Option.map_map, Option.map_map] at hdata
  have hconvert := congrArg (fun data => (data.bind convert).getD defaultVal) hdata
  simpa [Ptree.get, Option.bind_map, Function.comp_def, Ptree.shape] using hconvert

theorem getD_names (node : Option Ptree) :
    (node.getD Ptree.empty).names = ((node.map Ptree.shape).map Prod.snd).getD [] := by
  cases node <;> rfl

theorem getChilds_names (tree : Ptree) (path : List UInt8) :
    getChilds tree path =
      ((tree.getChildOptional path).getD Ptree.empty).names.map
        fun key => ⟨path ++ dot :: key⟩ := by
  unfold getChilds Ptree.names
  rw [List.map_map]
  rfl

theorem getChilds_getGroup (sub : Ptree) (group : ConfigGroup) (path : List UInt8) :
    ((getChilds sub path).map fun child => group.getGroup child.path) =
      ((sub.getChildOptional path).getD Ptree.empty).names.map
        fun key => ⟨group.join path ++ dot :: key⟩ := by
  rw [getChilds_names, List.map_map]
  congr 1
  funext key
  show ConfigGroup.mk (group.path ++ dot :: (path ++ dot :: key)) =
    ConfigGroup.mk (group.path ++ dot :: path ++ dot :: key)
  rw [List.append_assoc, List.cons_append]

/-- A group whose path leads to a node that looks like the subtree reads it. -/
theorem reads_of_alike {at' : Ptree} (hwalk : tree.walkPath (group.path.splitOn dot) = some at')
    (halike : Ptree.Alike at' sub) : ConfigGroup.Reads tr tree group sub := by
  have hshape : ∀ paths path,
      (tree.getChildOptional ((group.nested paths).join path)).map Ptree.shape =
        (sub.getChildOptional (nestedPath paths path)).map Ptree.shape := by
    intro paths path
    rw [nested_join, getChildOptional_join, hwalk, Option.bind_some]
    exact halike _ (components_fragments _)
  have hget : ∀ {α : Type} (convert : List UInt8 → Option α) paths path defaultVal,
      tree.get convert ((group.nested paths).join path) defaultVal =
        sub.get convert (nestedPath paths path) defaultVal :=
    fun _ paths path => get_eq_of_shape (hshape paths path)
  refine ⟨hget _, hget _, hget _, hget _, hget _, hget _, fun paths path => ?_, fun hlast => ?_⟩
  · rw [ConfigGroup.getChilds, getChilds_names, getChilds_getGroup, getD_names, getD_names,
      hshape paths path, nested_join]
  · have hnames : at'.names = sub.names := by
      have hroot := halike [] (List.forall_mem_nil _)
      simp only [Ptree.walkPath, Option.map_some, Option.some.injEq] at hroot
      exact congrArg Prod.snd hroot
    rw [ConfigGroup.childs, getChilds_names, Ptree.getChildOptional, components, if_neg hlast,
      hwalk, Option.getD_some, hnames]
    rfl

/-- Whatever the default, the same string: then there is the same string or none. -/
theorem eq_of_getD {a b : Option (List UInt8)} (h : ∀ default, a.getD default = b.getD default) :
    a = b := by
  cases a with
  | none =>
    cases b with
    | none => rfl
    | some y => exact absurd (h (0 :: y)) (List.cons_ne_self 0 y)
  | some x =>
    cases b with
    | none => exact absurd (h (0 :: x)).symm (List.cons_ne_self 0 x)
    | some y => exact congrArg some (h [])

theorem data_of_reads (h : ConfigGroup.Reads tr tree group sub) (path : List UInt8) :
    (tree.getChildOptional (group.join path)).map Ptree.data =
      (sub.getChildOptional path).map Ptree.data := by
  refine eq_of_getD fun default => ?_
  have hstring := h.string [] path default
  simpa [ConfigGroup.getString, ConfigGroup.nested, nestedPath, ConfigValue.make,
    Common.getString, Ptree.get, Option.map_eq_bind, Function.comp_def] using hstring

theorem names_of_reads (h : ConfigGroup.Reads tr tree group sub) (path : List UInt8) :
    ((tree.getChildOptional (group.join path)).getD Ptree.empty).names =
      ((sub.getChildOptional path).getD Ptree.empty).names := by
  have hchilds := h.childs [] path
  rw [getChilds_getGroup, ConfigGroup.getChilds, getChilds_names] at hchilds
  -- the paths of the groups differ in the keys only
  have hinjective :
      Function.Injective fun key => ConfigGroup.mk (group.join path ++ dot :: key) := by
    intro key key' heq
    exact (List.cons.inj (List.append_cancel_left (ConfigGroup.mk.inj heq))).2
  exact List.map_injective_iff.mpr hinjective hchilds

theorem shape_of_reads (h : ConfigGroup.Reads tr tree group sub) (path : List UInt8) :
    (tree.getChildOptional (group.join path)).map Ptree.shape =
      (sub.getChildOptional path).map Ptree.shape := by
  have hdata := data_of_reads h path
  have hnames := names_of_reads h path
  cases hleft : tree.getChildOptional (group.join path) <;>
    cases hright : sub.getChildOptional path <;> simp_all [Ptree.shape]

theorem alike_of_reads (h : ConfigGroup.Reads tr tree group sub) :
    ∃ at', tree.walkPath (group.path.splitOn dot) = some at' ∧ Ptree.Alike at' sub := by
  have hshape := fun path => shape_of_reads h path
  simp only [getChildOptional_join] at hshape
  cases hwalk : tree.walkPath (group.path.splitOn dot) with
  | none =>
    have hnone := hshape []
    rw [hwalk] at hnone
    cases hnone
  | some at' =>
    refine ⟨at', rfl, fun path hpath => ?_⟩
    obtain ⟨text, rfl⟩ := exists_components hpath
    have hpath := hshape text
    rw [hwalk] at hpath
    exact hpath

theorem reads_iff :
    ConfigGroup.Reads tr tree group sub ↔
      (tree.walkPath (group.path.splitOn dot)).map Ptree.visible = some sub.visible := by
  rw [Option.map_eq_some_iff]
  simp only [Ptree.visible_eq_iff]
  constructor
  · exact alike_of_reads
  · rintro ⟨at', hwalk, halike⟩
    exact reads_of_alike hwalk halike

end ConfigLemmas

open ConfigLemmas

/-- Every group reads its own child exactly if the path of every child leads to
a node with the content of the child. -/
theorem getChilds_read_iff (tr : Translator) (tree : Ptree) (path : List UInt8) :
    ChildsRead tr tree path ↔ ∀ child ∈ childsAt tree path, Leads tree path child := by
  unfold ChildsRead getChilds
  rw [← childsAt, List.forall₂_map_left_iff, List.forall₂_same]
  exact forall₂_congr fun child _ => reads_iff

/-- Two children with one key: the second group reads the first child. -/
theorem getChilds_duplicate_misread :
    ¬ChildsRead ⟨fun _ => none, fun _ => none⟩
      (.node [] [([108], .node [] [([97], .node [49] []), ([97], .node [50] [])])]) [108] := by
  intro h
  obtain ⟨-, hsecond⟩ := List.forall₂_cons.mp h
  obtain ⟨hreads, -⟩ := List.forall₂_cons.mp hsecond
  have hstring : ([49] : List UInt8) = [50] := hreads.string [] [] []
  exact absurd hstring (by decide)

/-- The path of a child with an empty key ends with a separator, which a lookup
ignores: `get_childs()` of its group gives the children of the parent. -/
theorem childs_of_empty_key (tree : Ptree) (path : List UInt8) :
    (ConfigGroup.mk (path ++ [dot])).childs tree =
      ((tree.walkPath (path.splitOn dot)).getD Ptree.empty).names.map
        (ConfigGroup.mk (path ++ [dot])).getGroup := by
  have hcomponents : components (path ++ [dot]) = path.splitOn dot := by
    rw [components_join]
    exact List.append_nil _
  rw [ConfigGroup.childs, getChilds_names, Ptree.getChildOptional, hcomponents]
  rfl

/-! ## Plain paths -/

theorem splitOn_getLast {path : List UInt8} (hne : path ≠ []) (hlast : path.getLast? ≠ some dot) :
    (path.splitOn dot).getLast? ≠ some [] := by
  induction path with
  | nil => exact absurd rfl hne
  | cons c path ih =>
    rw [List.splitOn_cons_eq_if_modifyHead]
    cases path with
    | nil =>
      have hc : c ≠ dot := fun h => hlast (congrArg some h)
      rw [if_neg (by simpa using hc)]
      simp
    | cons d path =>
      have hih := ih (List.cons_ne_nil d path) (by rwa [List.getLast?_cons_cons] at hlast)
      obtain ⟨first, rest, hsplit⟩ :=
        List.exists_cons_of_ne_nil (List.splitOn_ne_nil dot (d :: path))
      rw [hsplit] at hih ⊢
      split
      · rwa [List.getLast?_cons_cons]
      · cases rest with
        | nil => simp
        | cons second rest => exact hih

theorem components_eq_splitOn {path : List UInt8} (hne : path ≠ [])
    (hlast : path.getLast? ≠ some dot) : components path = path.splitOn dot :=
  if_neg (splitOn_getLast hne hlast)

/-- The path of a child with a key of its own leads to it, if no separator stands in
the key or ends the path of the parent. -/
theorem leads_of_plain {tree : Ptree} {path : List UInt8} {child : List UInt8 × Ptree}
    (hne : path ≠ []) (hlast : path.getLast? ≠ some dot) (hdot : dot ∉ child.1)
    (hfirst : ((childsAt tree path).find? fun other => other.1 == child.1) = some child) :
    Leads tree path child := by
  unfold childsAt Ptree.getChildOptional at hfirst
  unfold Leads
  rw [List.splitOn_append_cons_self, List.splitOn_eq_singleton hdot, Ptree.walkPath_append,
    ← components_eq_splitOn hne hlast]
  cases hnode : tree.walkPath (components path) with
  | none =>
    rw [hnode] at hfirst
    cases hfirst
  | some node =>
    rw [hnode] at hfirst
    have hfind : node.find child.1 = some child.2 := by
      unfold Ptree.find
      rw [show node.childs.find? _ = some child from hfirst]
      rfl
    rw [Option.bind_some, Ptree.walkPath, hfind]
    rfl

end Ian.Common
