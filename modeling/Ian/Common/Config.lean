import Ian.Lib.Machine
import Ian.Lib.Observer

/-!
# The configuration

`server/common/src/config`. The configuration is one `boost::property_tree`;
`load` replaces it and then tells every registered `ConfigListener`. The
values `ConfigBoolValue`, `ConfigStringValue` and `ConfigIntValue` are
listeners that keep what they looked up.

What the tree does is Boost's: a path is split at every '.', and each component
selects the first child with that key. The conversions of the text at a node
are parameters (`Translator`).

`config_values_fresh` is the result: a value never goes stale, whatever is
loaded, made, copied and destroyed, in any order.
-/

namespace Ian.Common

open Ian.Lib

/-! ## The tree -/

/-- A `ptree`: its data, and its children in order, each under its key. -/
inductive Ptree where
  | node (data : List UInt8) (childs : List (List UInt8 × Ptree))

namespace Ptree

def data : Ptree → List UInt8
  | node data _ => data

def childs : Ptree → List (List UInt8 × Ptree)
  | node _ childs => childs

/-- `ptree()`. -/
def empty : Ptree := node [] []

/-- `find`: the first child with that key. -/
def find (tree : Ptree) (key : List UInt8) : Option Ptree :=
  (tree.childs.find? fun child => child.1 == key).map Prod.snd

/-- `walk_path`. -/
def walkPath (tree : Ptree) : List (List UInt8) → Option Ptree
  | [] => some tree
  | fragment :: path => (tree.find fragment).bind fun child => child.walkPath path

end Ptree

/-- `'.'`, the separator of a path. -/
def dot : UInt8 := 46

/-- The fragments of a `string_path`. Nothing is left after a separator at the
end, and of the empty path. -/
def components (path : List UInt8) : List (List UInt8) :=
  if (path.splitOn dot).getLast? = some [] then (path.splitOn dot).dropLast else path.splitOn dot

namespace Ptree

/-- `get_child_optional`. -/
def getChildOptional (tree : Ptree) (path : List UInt8) : Option Ptree :=
  tree.walkPath (components path)

/-- `get(path, default)` with the conversion of the default's type. -/
def get {α : Type} (convert : List UInt8 → Option α) (tree : Ptree) (path : List UInt8)
    (default : α) : α :=
  ((tree.getChildOptional path).bind fun child => convert child.data).getD default

end Ptree

/-- Boost's conversions from text; a string stays as it is. -/
structure Translator where
  toBool : List UInt8 → Option Bool
  toInt : List UInt8 → Option Int

/-! ## `Config.cpp`

Over `get_config_tree()`. -/

section

variable (tr : Translator) (tree : Ptree)

def getBool (path : List UInt8) (default : Bool) : Bool := tree.get tr.toBool path default

def getString (path : List UInt8) (default : List UInt8) : List UInt8 := tree.get some path default

def getInt (path : List UInt8) (default : Int) : Int := tree.get tr.toInt path default

end

/-- A `ConfigGroup`. -/
structure ConfigGroup where
  path : List UInt8
deriving DecidableEq, Repr

/-- The path a group passes on for a path of its own: `path_ + "." + path`. -/
def ConfigGroup.join (group : ConfigGroup) (path : List UInt8) : List UInt8 :=
  group.path ++ dot :: path

def getChilds (tree : Ptree) (path : List UInt8) : List ConfigGroup :=
  ((tree.getChildOptional path).getD Ptree.empty).childs.map fun it => ⟨path ++ dot :: it.1⟩

/-! ## `ConfigValue.cpp` -/

/-- The members of `ConfigBoolValue`, `ConfigStringValue` and `ConfigIntValue`. -/
structure ConfigValue (α : Type) where
  path : List UInt8
  defaultVal : α
  value : α
deriving DecidableEq, Repr

namespace ConfigValue

variable {α : Type}

/-- The constructor; `get` is the lookup of the value's type. -/
def make (get : List UInt8 → α → α) (key : List UInt8) (defaultVal : α) : ConfigValue α :=
  { path := key, defaultVal, value := get key defaultVal }

/-- The copy constructor, which looks nothing up. -/
def copy (other : ConfigValue α) : ConfigValue α :=
  { path := other.path, defaultVal := other.defaultVal, value := other.value }

def onUpdate (get : List UInt8 → α → α) (v : ConfigValue α) : ConfigValue α :=
  { v with value := get v.path v.defaultVal }

/-- The value is what a lookup would give. -/
def Current (get : List UInt8 → α → α) (v : ConfigValue α) : Prop :=
  v.value = get v.path v.defaultVal

theorem make_current (get : List UInt8 → α → α) (key : List UInt8) (defaultVal : α) :
    (make get key defaultVal).Current get := rfl

theorem onUpdate_eq_self_iff {get : List UInt8 → α → α} {v : ConfigValue α} :
    v.onUpdate get = v ↔ v.Current get := by
  obtain ⟨path, defaultVal, value⟩ := v
  simp [onUpdate, Current, eq_comm]

end ConfigValue

abbrev ConfigBoolValue := ConfigValue Bool
abbrev ConfigStringValue := ConfigValue (List UInt8)
abbrev ConfigIntValue := ConfigValue Int

/-- A `ConfigListener`, by the class that derives from it. -/
inductive ConfigListener where
  | bool (v : ConfigBoolValue)
  | string (v : ConfigStringValue)
  | int (v : ConfigIntValue)
deriving DecidableEq, Repr

namespace ConfigListener

variable (tr : Translator) (tree : Ptree)

def onUpdate : ConfigListener → ConfigListener
  | bool v => bool (v.onUpdate (getBool tr tree))
  | string v => string (v.onUpdate (getString tree))
  | int v => int (v.onUpdate (getInt tr tree))

def copy : ConfigListener → ConfigListener
  | bool v => bool v.copy
  | string v => string v.copy
  | int v => int v.copy

/-- `get_value()` is what looking up its own path with its own default gives. -/
def Current : ConfigListener → Prop
  | bool v => v.Current (getBool tr tree)
  | string v => v.Current (getString tree)
  | int v => v.Current (getInt tr tree)

variable {tr tree}

theorem onUpdate_eq_self_iff {l : ConfigListener} : l.onUpdate tr tree = l ↔ l.Current tr tree := by
  cases l <;> simp [onUpdate, Current, ConfigValue.onUpdate_eq_self_iff]

theorem onUpdate_idem (tree : Ptree) (l : ConfigListener) :
    (l.onUpdate tr tree).onUpdate tr tree = l.onUpdate tr tree := by
  cases l <;> rfl

@[simp] theorem copy_eq (l : ConfigListener) : l.copy = l := by
  cases l <;> rfl

end ConfigListener

/-- The arguments of a value's constructor. -/
inductive ConfigRequest where
  | bool (path : List UInt8) (defaultVal : Bool)
  | string (path : List UInt8) (defaultVal : List UInt8)
  | int (path : List UInt8) (defaultVal : Int)
deriving DecidableEq, Repr

/-- `ConfigBoolValue(path, default_val)`, and the others. -/
def ConfigRequest.make (tr : Translator) (tree : Ptree) : ConfigRequest → ConfigListener
  | bool path defaultVal => .bool (.make (getBool tr tree) path defaultVal)
  | string path defaultVal => .string (.make (getString tree) path defaultVal)
  | int path defaultVal => .int (.make (getInt tr tree) path defaultVal)

theorem ConfigRequest.make_current (tr : Translator) (tree : Ptree) (r : ConfigRequest) :
    (r.make tr tree).Current tr tree := by
  cases r <;> exact ConfigValue.make_current _ _ _

/-! ## `ConfigGroup.cpp` -/

namespace ConfigGroup

variable (tr : Translator) (tree : Ptree) (group : ConfigGroup)

def getBool (path : List UInt8) (defaultVal : Bool) : ConfigBoolValue :=
  .make (Common.getBool tr tree) (group.join path) defaultVal

def getBoolValue (path : List UInt8) (defaultVal : Bool) : Bool :=
  Common.getBool tr tree (group.join path) defaultVal

def getString (path : List UInt8) (defaultVal : List UInt8) : ConfigStringValue :=
  .make (Common.getString tree) (group.join path) defaultVal

def getStringValue (path : List UInt8) (defaultVal : List UInt8) : List UInt8 :=
  Common.getString tree (group.join path) defaultVal

def getInt (path : List UInt8) (defaultVal : Int) : ConfigIntValue :=
  .make (Common.getInt tr tree) (group.join path) defaultVal

def getIntValue (path : List UInt8) (defaultVal : Int) : Int :=
  Common.getInt tr tree (group.join path) defaultVal

def getGroup (path : List UInt8) : ConfigGroup := ⟨group.join path⟩

/-- `get_childs()`. -/
def childs : List ConfigGroup := Common.getChilds tree group.path

/-- `get_childs(path)`. -/
def getChilds (path : List UInt8) : List ConfigGroup := Common.getChilds tree (group.join path)

end ConfigGroup

/-- `group.get_bool(path, default_val)`, and the others. -/
def ConfigRequest.makeIn (tr : Translator) (tree : Ptree) (group : ConfigGroup) :
    ConfigRequest → ConfigListener
  | bool path defaultVal => .bool (group.getBool tr tree path defaultVal)
  | string path defaultVal => .string (group.getString tree path defaultVal)
  | int path defaultVal => .int (group.getInt tr tree path defaultVal)

theorem ConfigRequest.makeIn_current (tr : Translator) (tree : Ptree) (group : ConfigGroup)
    (r : ConfigRequest) : (r.makeIn tr tree group).Current tr tree := by
  cases r <;> exact ConfigValue.make_current _ _ _

/-! ## Runs -/

/-- The tree, the values there are, by address, and `ListenersData::listeners`. -/
abbrev Config := Subject Ptree ConfigListener

/-- Before anything happens: an empty tree and no value. -/
def Config.init : Config := { source := .empty, objects := fun _ => none, listeners := [] }

/-- `config::load`; `read` is the tree `read_info` parses, if it succeeds. -/
def load (tr : Translator) (read : Option Ptree) (s : Config) : Bool × Config :=
  match read with
  | none => (false, s)
  | some tree => (true, s.publish (ConfigListener.onUpdate tr) tree)

inductive ConfigEvent where
  | load (read : Option Ptree)
  | construct (address : Nat) (args : ConfigRequest)
  | get (address : Nat) (group : ConfigGroup) (args : ConfigRequest)
  | copy (address other : Nat)
  | destroy (address : Nat)

/-- The base class registers the address, then the members are set. A value is
made at a free address. -/
def Config.construct (s : Config) (address : Nat) (l : ConfigListener) : Option Config :=
  if (s.objects address).isSome then none else some (s.attach address l)

def Config.step (tr : Translator) (s : Config) : ConfigEvent → Option Config
  | .load read => some (Common.load tr read s).2
  | .construct address args => s.construct address (args.make tr s.source)
  | .get address group args => s.construct address (args.makeIn tr s.source group)
  | .copy address other => (s.objects other).bind fun l => s.construct address l.copy
  | .destroy address => (s.objects address).map fun _ => s.detach address

/-- Every value is registered and current, and nothing else is registered. -/
abbrev Config.Fresh (tr : Translator) (s : Config) : Prop :=
  Subject.Coherent (ConfigListener.onUpdate tr) s

namespace ConfigLemmas

variable {tr : Translator} {s s' : Config}

theorem load_fresh (h : Config.Fresh tr s) (read : Option Ptree) :
    Config.Fresh tr (load tr read s).2 := by
  cases read with
  | none => exact h
  | some tree => exact h.publish ConfigListener.onUpdate_idem tree

theorem construct_fresh (h : Config.Fresh tr s) {address : Nat} {l : ConfigListener}
    (hl : l.Current tr s.source) (hs : s.construct address l = some s') :
    Config.Fresh tr s' := by
  unfold Config.construct at hs
  split at hs
  · cases hs
  · cases hs
    exact h.attach address (ConfigListener.onUpdate_eq_self_iff.mpr hl)

theorem step_fresh {e : ConfigEvent} (h : Config.Fresh tr s) (hs : s.step tr e = some s') :
    Config.Fresh tr s' := by
  cases e with
  | load read =>
    cases hs
    exact load_fresh h read
  | construct address args => exact construct_fresh h (args.make_current tr s.source) hs
  | get address group args =>
    exact construct_fresh h (args.makeIn_current tr s.source group) hs
  | copy address other =>
    obtain ⟨l, hl, hnew⟩ := Option.bind_eq_some_iff.mp hs
    rw [ConfigListener.copy_eq] at hnew
    -- the copy is current because what it is copied from is
    exact construct_fresh h (ConfigListener.onUpdate_eq_self_iff.mp (h.fresh other l hl)) hnew
  | destroy address =>
    obtain ⟨l, -, rfl⟩ := Option.map_eq_some_iff.mp hs
    exact h.detach address

end ConfigLemmas

open ConfigLemmas

/-- After every operation of every run, the registered listeners are the values
there are, every value is what its lookup in the tree gives, and a load that
fails changes nothing. -/
theorem config_values_fresh (tr : Translator) {es : List ConfigEvent} {s : Config}
    (hrun : runEvents (Config.step tr) Config.init es = some s) :
    (∀ address, address ∈ s.listeners ↔ (s.objects address).isSome = true) ∧
      (∀ address l, s.objects address = some l → l.Current tr s.source) ∧
      load tr none s = (false, s) := by
  have hinit : Config.Fresh tr Config.init := Subject.coherent_of_empty (fun _ => rfl) rfl
  have h : Config.Fresh tr s := run_invariant (fun _ _ _ hs hstep => step_fresh hs hstep) hinit hrun
  exact ⟨h.registered,
    fun address l hl => ConfigListener.onUpdate_eq_self_iff.mp (h.fresh address l hl), rfl⟩

/-- A value made before the first load and the copy made of it after, when the
value is gone and another load has failed. -/
theorem config_values_fresh_copied :
    ∃ s, runEvents (Config.step ⟨fun _ => none, fun _ => some 7⟩) Config.init
        [.construct 0 (.int [97] 1), .load (some (.node [] [([97], .node [55] [])])), .copy 1 0,
          .destroy 0, .load none] = some s ∧
      s.objects 1 = some (.int ⟨[97], 1, 7⟩) ∧ 1 ∈ s.listeners ∧ 0 ∉ s.listeners ∧
      (ConfigListener.int ⟨[97], 1, 7⟩).Current ⟨fun _ => none, fun _ => some 7⟩ s.source := by
  obtain ⟨s, hrun⟩ : ∃ s, runEvents (Config.step ⟨fun _ => none, fun _ => some 7⟩) Config.init
      [.construct 0 (.int [97] 1), .load (some (.node [] [([97], .node [55] [])])), .copy 1 0,
        .destroy 0, .load none] = some s := ⟨_, rfl⟩
  obtain ⟨hlisteners, hcurrent, -⟩ := config_values_fresh _ hrun
  have hcopy : s.objects 1 = some (.int ⟨[97], 1, 7⟩) := by
    cases hrun
    rfl
  have hgone : s.objects 0 = none := by
    cases hrun
    rfl
  refine ⟨s, hrun, hcopy, (hlisteners 1).mpr (by rw [hcopy]; rfl), fun h => ?_, hcurrent 1 _ hcopy⟩
  have := (hlisteners 0).mp h
  rw [hgone] at this
  cases this

end Ian.Common
