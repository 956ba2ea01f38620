import MaterialGraph.Json.Printer
import MaterialGraph.NodeClass.Selection

/-!
# Migration of old documents

A document may hold nodes of classes and versions that are no longer in use. A
migration names the class and version it starts from, edits the settings and says
which class and version the node has then. Migrations are chained until none
starts from where a node is. When an edit fails, what it has changed so far stays
changed.

Which migration comes next depends on the class and version alone. A node that needs
more migrations than there are is therefore on a circle, and only a migration that
refuses the settings can end that. One may refuse what it made of them itself, so
every circle is walked twice; an edit that accepts its own result goes on doing so.

## Main definitions

* `Edit` — changes to the members of an object that can fail midway.
* `Migration`, `Migrations` — one migration, and those in use.
* `Migrations.upgrade` — a document brought up to date, and how many migrations
  that took.
* `Migrations.builtin` — the migrations of the built-in classes.
-/

namespace MaterialGraph

/-! ### Edits -/

/-- Changes to the members of an object. They may fail with an `ε`; what was changed
before stays. -/
abbrev Edit (ε : Type) := ExceptT ε (StateM Fields)

namespace Edit

variable {ε : Type}

/-- The value of a member. -/
def get? (key : String) : Edit ε (Option Json) := do return Dictionary.get? (← get) key

/-- Gives a member a value. -/
def set (key : String) (value : Json) : Edit ε Unit :=
  modify fun d => Dictionary.insert d key value

/-- Removes a member and gives its value. -/
def take? (key : String) : Edit ε (Option Json) := do
  let value ← get? key
  modify fun d => Dictionary.erase d key
  return value

/-- Moves the value of a member to another key. -/
def rename (source target : String) : Edit ε Unit := do
  match ← take? source with
  | some value => set target value
  | none => return ()

end Edit

/-! ### Migrations -/

/-- A migration of nodes. -/
structure Migration where
  /-- The class it starts from. -/
  className : String
  /-- The version it starts from. -/
  version : UInt32
  /-- The class it leads to. -/
  toClass : String
  /-- The version it leads to. -/
  toVersion : UInt32
  /-- What it does with the settings; it may refuse them. -/
  edit : Edit String Unit

/-- Whether a migration is the one for a class and version. -/
def Migration.startsFrom (m : Migration) (className : String) (version : UInt32) : Bool :=
  m.className == className && m.version == version

/-- Why a document cannot be brought up to date. -/
inductive UpgradeFailure where
  /-- The document is not an object. -/
  | notObject
  /-- The document has no list of nodes. -/
  | noNodes
  | nodeNotObject
  | noClass
  /-- The version of a node is not a number of thirty-two bits. -/
  | invalidVersion (className : String) (version : Json)
  | settingsNotObject (className : String)
  | refused (className : String) (version : UInt32) (reason : String)
  /-- The budget of a node is used up: its migrations lead in a circle, and none of them has
  refused so far. -/
  | endless
  /-- The document is up to date but cannot be read. -/
  | unreadable

namespace UpgradeFailure

/-- What a failure is called. -/
def message : UpgradeFailure → String
  | .notObject => "invalid graph document: expected an object"
  | .noNodes => "invalid graph document: missing nodes"
  | .nodeNotObject => "invalid graph document: node is not an object"
  | .noClass => "invalid graph document: node without __class"
  | .invalidVersion className version =>
    "invalid graph document: " ++ className ++ " has invalid version " ++ version.render
  | .settingsNotObject className =>
    "invalid graph document: " ++ className ++ " settings is not an object"
  | .refused className version _ =>
    "upgrading " ++ className ++ " version " ++ toString version.toNat
  | .endless => "upgrade does not finish"
  | .unreadable => "deserialization error"

/-- The wording of a failure and of what led to it. -/
def chain (f : UpgradeFailure) : List String :=
  match f with
  | .refused _ _ reason => [f.message, reason]
  | _ => [f.message]

end UpgradeFailure

/-- The migrations in use. -/
structure Migrations where
  /-- The migrations; no two start from the same class and version. -/
  list : List Migration := []

namespace Migrations

/-- The migrations with one more, which replaces one that starts from the same. -/
def add (ms : Migrations) (m : Migration) : Migrations :=
  ⟨m :: ms.list.filter (!·.startsFrom m.className m.version)⟩

/-- The migration that starts from a class and version. -/
def find? (ms : Migrations) (className : String) (version : UInt32) : Option Migration :=
  ms.list.find? (·.startsFrom className version)

/-! ### Upgrading nodes -/

/-- The class of a node. -/
def classOf (node : Fields) : Except UpgradeFailure String :=
  match Dictionary.get? node "__class" with
  | some (.string className) => .ok className
  | _ => .error .noClass

/-- The version of a node, which is one if it does not say. -/
def versionOf (className : String) (node : Fields) : Except UpgradeFailure UInt32 :=
  match Dictionary.get? node "version" with
  | none | some .null => .ok 1
  | some j =>
    match j.readUInt32 with
    | .ok version => .ok version
    | .error _ => .error (.invalidVersion className j)

/-- The migration that the node being edited needs next. -/
def next? (ms : Migrations) : Edit UpgradeFailure (Option Migration) := do
  let node ← get
  let className ← liftM (classOf node)
  let version ← liftM (versionOf className node)
  return ms.find? className version

/-- The settings of a node as an object; a node without settings is given empty ones. -/
def settingsOf (className : String) : Edit UpgradeFailure Fields := do
  match ← Edit.get? "settings" with
  | none | some .null =>
    Edit.set "settings" (.object [])
    return []
  | some (.object settings) => return settings
  | some _ => throw (.settingsNotObject className)

/-- Carries out one migration: its edit first, then the new class and version. Settings that
are refused stay as the edit has left them. -/
def migrate (m : Migration) : Edit UpgradeFailure Unit := do
  let settings ← settingsOf m.className
  let (result, settings) := (m.edit.run settings : Except String Unit × Fields)
  Edit.set "settings" (.object settings)
  match result with
  | .error reason => throw (.refused m.className m.version reason)
  | .ok () =>
    Edit.set "__class" (.string m.toClass)
    Edit.set "version" (.int m.toVersion.toNat)

/-- How many migrations of one node are tried: enough to go through all of them twice. In a
circle that is left only by a later refusal a node is given up before. -/
def budget (ms : Migrations) : Nat := 2 * ms.list.length

/-- Migrates a node until no migration starts from where it is, at most `fuel` times,
and counts the migrations. -/
def upgradeNode (ms : Migrations) : (fuel : Nat) → Edit UpgradeFailure Nat
  | 0 => do
    match ← ms.next? with
    | none => return 0
    | some _ => throw .endless
  | fuel + 1 => do
    match ← ms.next? with
    | none => return 0
    | some m =>
      migrate m
      return (← upgradeNode ms fuel) + 1

/-! ### Upgrading documents -/

/-- Upgrades nodes one after the other up to the first failure. -/
def upgradeNodes (ms : Migrations) : List Json → Except UpgradeFailure Nat × List Json
  | [] => (.ok 0, [])
  | .object node :: rest =>
    match ((ms.upgradeNode ms.budget).run node : Except UpgradeFailure Nat × Fields) with
    | (.error f, node) => (.error f, .object node :: rest)
    | (.ok n, node) =>
      let (result, rest) := ms.upgradeNodes rest
      (result.map (n + ·), .object node :: rest)
  | node :: rest => (.error .nodeNotObject, node :: rest)

/-- Brings a document up to date and counts the migrations. If that fails, what was
changed before stays changed. -/
def upgrade (ms : Migrations) : Json → Except UpgradeFailure Nat × Json
  | .object root =>
    match Dictionary.get? root "nodes" with
    | some (.array nodes) =>
      let (result, nodes) := ms.upgradeNodes nodes
      let root := Dictionary.insert root "nodes" (.array nodes)
      match result with
      | .error f => (.error f, .object root)
      | .ok n =>
        (.ok n, .object (Dictionary.insert root "version" (.int documentVersion.toNat)))
    | _ => (.error .noNodes, .object root)
  | j => (.error .notObject, j)

/-- The document that an old document is once it is up to date. -/
def read (ms : Migrations) (j : Json) : Except UpgradeFailure Document :=
  match ms.upgrade j with
  | (.error f, _) => .error f
  | (.ok _, j) =>
    match Document.read j with
    | .ok d => .ok d
    | .error _ => .error .unreadable

end Migrations

/-! ### The migrations of the built-in classes -/

namespace Migration

/-- A name of words in capitals as words in small letters, a low line before each word
but the first. -/
def snakeCase (cs : List Char) : List Char :=
  match cs with
  | [] => []
  | c :: cs =>
    c.toLower :: cs.flatMap fun c => if c.isUpper then ['_', c.toLower] else [c.toLower]

/-- The class of results, whose channel was named in capitals. -/
def functionResult : Migration where
  className := "FunctionResult"
  version := 1
  toClass := "SubgraphOutput"
  toVersion := 2
  edit := do
    Edit.rename "Name" "name"
    Edit.rename "Value" "value"
    match ← Edit.take? "PreviewType" with
    | none | some .null | some (.string "None") => return ()
    | some (.string s) => Edit.set "preview" (.string (.ofList (snakeCase s.toList)))
    | some j => throw ("unexpected PreviewType " ++ j.render)

/-- Interpolation, whose fraction had a longer name. -/
def lerp : Migration where
  className := "Lerp"
  version := 1
  toClass := "Lerp"
  toVersion := 2
  edit := do
    Edit.rename "Fraction" "t"
    Edit.rename "DefaultFraction" "default_t"

/-- Samples, whose colour space had other names. -/
def textureSample : Migration where
  className := "TextureSample"
  version := 1
  toClass := "TextureSample"
  toVersion := 2
  edit := do
    match ← Edit.get? "color_space" with
    | none => return ()
    | some (.string "Gamma") => Edit.set "color_space" (.string "srgb")
    | some (.string "Linear") => Edit.set "color_space" (.string "linear")
    | some j => throw ("unknown color space " ++ j.render)

/-- Branches, whose comparison was given by its symbol. -/
def branch : Migration where
  className := "Branch"
  version := 1
  toClass := "Branch"
  toVersion := 2
  edit := do
    match ← Edit.get? "operator" with
    | none => return ()
    | some (.string symbol) =>
      match Comparison.ofSymbol? symbol with
      | some c => Edit.set "operator" (.string c.key)
      | none => throw ("unknown operator \"" ++ symbol ++ "\"")
    | some j => throw ("unexpected operator " ++ j.render)

end Migration

/-- The migrations of the built-in classes. -/
def Migrations.builtin : Migrations :=
  ⟨[.functionResult, .lerp, .textureSample, .branch]⟩

end MaterialGraph
