import MaterialGraph.Plan

/-!
# Selections

Nodes that choose between two values: a branch by comparing two scalars when the
program runs, a static switch by a feature of the material. While a material is
being edited the feature is an attribute, so that turning it on or off needs no
new program.
-/

namespace MaterialGraph

open Number RecordReader

/-! ### Comparisons -/

/-- A comparison of two scalars. -/
inductive Comparison where
  | equal
  | notEqual
  | greater
  | greaterEqual
  | less
  | lessEqual
  deriving DecidableEq, Repr, Inhabited

namespace Comparison

/-- All comparisons. -/
def all : List Comparison := [.equal, .notEqual, .greater, .greaterEqual, .less, .lessEqual]

/-- The name in documents. -/
def key : Comparison → String
  | .equal => "equal"
  | .notEqual => "not_equal"
  | .greater => "greater"
  | .greaterEqual => "greater_equal"
  | .less => "less"
  | .lessEqual => "less_equal"

/-- The operator in program text. -/
def symbol : Comparison → String
  | .equal => "=="
  | .notEqual => "!="
  | .greater => ">"
  | .greaterEqual => ">="
  | .less => "<"
  | .lessEqual => "<="

/-- The comparison of an operator, blanks around it do not matter. -/
def ofSymbol? (text : String) : Option Comparison :=
  let trimmed := String.ofList (Text.trim text.toList)
  all.find? (·.symbol == trimmed)

/-- Reads a comparison by its name. -/
def read (j : Json) : Except Mismatch Comparison := j.readName all key

/-- A comparison in a document. -/
def write (c : Comparison) : Json := .string c.key

end Comparison

/-- Both values of a selection at their common type. -/
def selectOperands (types : TypeTable) (on off : Expr) :
    Except Fault (ShaderType × Expr × Expr) :=
  match on.type.combine off.type with
  | none => .error (.castTo off.type on.type)
  | some type => do return (type, ← on.castTo types type, ← off.castTo types type)

/-! ### Branches -/

/-- The settings of a branch. -/
structure BranchSettings where
  a : Wire := {}
  b : Wire := {}
  /-- The value if the comparison holds. -/
  onTrue : Wire := {}
  /-- The value if it does not. -/
  onFalse : Wire := {}
  comparison : Comparison := .equal
  defaultA : Single := zero
  defaultB : Single := zero
  defaultTrue : Single := one
  defaultFalse : Single := zero
  deriving DecidableEq, Repr

namespace BranchSettings

/-- Reads the settings of a branch. -/
def fields : RecordReader BranchSettings := do
  let a ← field "a" Wire.read {}
  let b ← field "b" Wire.read {}
  let onTrue ← field "on_true" Wire.read {}
  let onFalse ← field "on_false" Wire.read {}
  let comparison ← field "operator" Comparison.read .equal
  let defaultA ← field "default_a" Json.readSingle zero
  let defaultB ← field "default_b" Json.readSingle zero
  let defaultTrue ← field "default_true" Json.readSingle one
  let defaultFalse ← field "default_false" Json.readSingle zero
  return { a, b, onTrue, onFalse, comparison, defaultA, defaultB, defaultTrue, defaultFalse }

/-- Saves the settings of a branch. -/
def write (s : BranchSettings) : Json := .record
  [("a", some s.a.write), ("b", some s.b.write), ("on_true", some s.onTrue.write),
    ("on_false", some s.onFalse.write), ("operator", some s.comparison.write),
    ("default_a", some (.ofSingle s.defaultA)), ("default_b", some (.ofSingle s.defaultB)),
    ("default_true", some (.ofSingle s.defaultTrue)),
    ("default_false", some (.ofSingle s.defaultFalse))]

/-- The fault of comparing something else than scalars. -/
def scalarFault? (e : Expr) : Option Fault :=
  if e.components = some 1 then none
  else some (.typeMismatch ("branch compares scalars, got " ++ e.type.text))

/-- The selection as text. -/
def emit (types : TypeTable) (s : BranchSettings) (a b on off : Expr) : Except Fault Expr := do
  let (type, on', off') ← selectOperands types on off
  let code :=
    "( " ++ a.code ++ " " ++ s.comparison.symbol ++ " " ++ b.code ++ " ) ? " ++ on'.operand ++
      " : " ++ off'.operand
  return {
    type, code
    isConstant := a.isConstant && b.isConstant && on.isConstant && off.isConstant }

/-- A choice between two values at run time. -/
def spec : NodeSpec BranchSettings where
  name := "Branch"
  version := 2
  inputs := [("a", .float), ("b", .float), ("on_true", .any), ("on_false", .any)]
  outputs := [(resultOutput, .any)]
  initial := {}
  fields := fields
  write := write
  connections s := [("a", s.a), ("b", s.b), ("on_true", s.onTrue), ("on_false", s.onFalse)]
  plan s frame output := .onlyResult "Branch" output do
    let a ← .orDefault frame.types "a" s.a (.float s.defaultA)
    let b ← .orDefault frame.types "b" s.b (.float s.defaultB)
    match scalarFault? a <|> scalarFault? b with
    | some fault => .fail fault
    | none =>
      let on ← .orDefault frame.types "on_true" s.onTrue (.float s.defaultTrue)
      let off ← .orDefault frame.types "on_false" s.onFalse (.float s.defaultFalse)
      Plan.ofExcept (s.emit frame.types a b on off)

end BranchSettings

/-! ### Static switches -/

/-- The settings of a static switch. Switches of one name share the feature. -/
structure SwitchSettings where
  /-- The name of the feature. -/
  name : String := ""
  group : String := ""
  /-- The value with the feature. -/
  onTrue : Wire := {}
  /-- The value without it. -/
  onFalse : Wire := {}
  /-- Whether previews start with the feature. -/
  previewValue : Bool := false
  deriving DecidableEq, Repr

namespace SwitchSettings

/-- Reads the settings of a switch. -/
def fields : RecordReader SwitchSettings := do
  let name ← field "name" Json.readString ""
  let group ← field "group" Json.readString ""
  let onTrue ← field "on_true" Wire.read {}
  let onFalse ← field "on_false" Wire.read {}
  let previewValue ← field "preview_value" Json.readBool false
  return { name, group, onTrue, onFalse, previewValue }

/-- Saves the settings of a switch. -/
def write (s : SwitchSettings) : Json := .record
  [("name", some (.string s.name)), ("group", Json.nonEmpty s.group),
    ("on_true", some s.onTrue.write), ("on_false", some s.onFalse.write),
    ("preview_value", some (.bool s.previewValue))]

/-- A choice between two values when the program is built. -/
def spec : NodeSpec SwitchSettings where
  name := "StaticSwitch"
  inputs := [("on_true", .any), ("on_false", .any)]
  outputs := [(resultOutput, .any)]
  initial := {}
  fields := fields
  write := write
  connections s := [("on_true", s.onTrue), ("on_false", s.onFalse)]
  errors s :=
    if (Text.Identifier.ofText s.name).isEmpty then ["static switch requires a name"] else []
  metadata s := [("feature", s.name)]
  plan s frame output := .onlyResult "StaticSwitch" output do
    let on ← .orDefault frame.types "on_true" s.onTrue (.float zero)
    let off ← .orDefault frame.types "on_false" s.onFalse (.float zero)
    let (type, on, off) ← Plan.ofExcept (selectOperands frame.types on off)
    match frame.mode with
    | .preview =>
      let toggle ← Plan.ofExcept (← Plan.request (.toggle s.name s.previewValue))
      return { type, code := toggle.code ++ " ? " ++ on.operand ++ " : " ++ off.operand }
    | .final =>
      let feature ← Plan.ofExcept (← Plan.request (.feature s.name s.group))
      Plan.request (.select feature type on off)

end SwitchSettings

end MaterialGraph
