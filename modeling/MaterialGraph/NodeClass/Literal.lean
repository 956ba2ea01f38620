import MaterialGraph.Plan

/-!
# Literal nodes

A literal gives a value that is part of its settings. Without a name the value
is written into the program; with a name it becomes the initial value of a
parameter.
-/

namespace MaterialGraph

open Number RecordReader

/-- What is wrong with the name of a parameter: it leaves nothing of an identifier. -/
def nameErrors (name : String) : List String :=
  if !name.isEmpty && (Text.Identifier.ofText name).isEmpty then
    ["\"" ++ name ++ "\" is not a usable parameter name"]
  else []

/-! ### Literals with a range -/

/-- The kinds of literals that can have a range. -/
inductive LiteralKind where
  | float
  | int
  | vector2
  | vector3
  | vector4
  | color
  deriving DecidableEq, Repr

namespace LiteralKind

/-- All kinds of constants. -/
def all : List LiteralKind := [.float, .int, .vector2, .vector3, .vector4, .color]

/-- The values of a kind. -/
abbrev Carrier : LiteralKind → Type
  | .float => Single
  | .int => Int32
  | .vector2 => Vec2
  | .vector3 => Vec3
  | .vector4 => Vec4
  | .color => Vec4

/-- The type of the output. -/
def type : LiteralKind → ShaderType
  | .float => .float
  | .int => .int
  | .vector2 => .vector2
  | .vector3 => .vector3
  | .vector4 => .vector4
  | .color => .color

/-- The name of the class. -/
def name : LiteralKind → String
  | .float => "Float"
  | .int => "Int"
  | .vector2 => "Vector2"
  | .vector3 => "Vector3"
  | .vector4 => "Vector4"
  | .color => "Color"

/-- The value of a new node. -/
def initial : (k : LiteralKind) → k.Carrier
  | .float => zero
  | .int => 0
  | .vector2 => ⟨zero, zero⟩
  | .vector3 => ⟨zero, zero, zero⟩
  | .vector4 => .zeros
  | .color => .zeros

/-- A value as a constant. -/
def constant : (k : LiteralKind) → k.Carrier → Constant
  | .float => .float
  | .int => .int
  | .vector2 => .vector2
  | .vector3 => .vector3
  | .vector4 => .vector4
  | .color => .color

/-- Reads a value of the kind. -/
def read : (k : LiteralKind) → Json → Except Mismatch k.Carrier
  | .float => Json.readSingle
  | .int => Json.readInt32
  | .vector2 => Vec2.read
  | .vector3 => Vec3.read
  | .vector4 => Vec4.read
  | .color => Vec4.read

/-- A value of the kind in a document. -/
def write : (k : LiteralKind) → k.Carrier → Json
  | .float => Json.ofSingle
  | .int => fun n => .int n.toInt
  | .vector2 => Vec2.write
  | .vector3 => Vec3.write
  | .vector4 => Vec4.write
  | .color => Vec4.write

end LiteralKind

/-- The settings of a literal with values of type `α`. -/
structure LiteralSettings (α : Type) where
  value : α
  /-- The name of the parameter, none for a plain literal. -/
  name : String := ""
  /-- The least and the greatest value of the parameter. -/
  range : Option (α × α) := none
  /-- Whether the parameter is an attribute. -/
  isAttribute : Bool := false
  /-- How the editor shows the parameter. -/
  hint : EditorHint := {}
  deriving DecidableEq, Repr

namespace Literal

/-- Reads the settings of a constant. -/
def fields (k : LiteralKind) : RecordReader (LiteralSettings k.Carrier) := do
  let value ← field "value" k.read k.initial
  let name ← field "name" Json.readString ""
  let range ← field "range" (Json.readOption (Json.readPair k.read)) none
  let isAttribute ← field "attribute" Json.readBool false
  let hint ← field "ui" EditorHint.read {}
  return { value, name, range, isAttribute, hint }

/-- Saves the settings of a constant. -/
def write (k : LiteralKind) (s : LiteralSettings k.Carrier) : Json := .record
  [("value", some (k.write s.value)), ("name", Json.nonEmpty s.name),
    ("range", s.range.map fun (low, high) => .array [k.write low, k.write high]),
    ("attribute", Json.whenTrue s.isAttribute), ("ui", some s.hint.write)]

/-- The parameter that a named literal asks for. -/
def parameter (k : LiteralKind) (s : LiteralSettings k.Carrier) : ParameterSpec where
  name := s.name
  type := k.type
  initial := some (k.constant s.value)
  range := s.range.map fun (low, high) => (k.constant low, k.constant high)
  isAttribute := s.isAttribute
  hint := s.hint

/-- A constant, or a parameter if it has a name. -/
def spec (k : LiteralKind) : NodeSpec (LiteralSettings k.Carrier) where
  name := k.name
  outputs := [(resultOutput, k.type)]
  initial := { value := k.initial }
  fields := fields k
  write := write k
  errors s := nameErrors s.name
  plan s frame output := .onlyResult k.name output <|
    if s.name.isEmpty then return (k.constant s.value).expr frame.types
    else do Plan.ofExcept (← Plan.request (.parameter (parameter k s)))

end Literal

/-! ### Truth values -/

/-- The settings of a literal truth value. -/
structure BoolSettings where
  value : Bool := false
  name : String := ""
  isAttribute : Bool := false
  hint : EditorHint := {}
  deriving DecidableEq, Repr

namespace BoolSettings

/-- Reads the settings of a truth value. -/
def fields : RecordReader BoolSettings := do
  let value ← field "value" Json.readBool false
  let name ← field "name" Json.readString ""
  let isAttribute ← field "attribute" Json.readBool false
  let hint ← field "ui" EditorHint.read {}
  return { value, name, isAttribute, hint }

/-- Saves the settings of a truth value. -/
def write (s : BoolSettings) : Json := .record
  [("value", some (.bool s.value)), ("name", Json.nonEmpty s.name),
    ("attribute", Json.whenTrue s.isAttribute), ("ui", some s.hint.write)]

/-- The parameter that a named truth value asks for. -/
def parameter (s : BoolSettings) : ParameterSpec where
  name := s.name
  type := .bool
  initial := some (.bool s.value)
  isAttribute := s.isAttribute
  hint := s.hint

/-- A truth value, or a parameter if it has a name. -/
def spec : NodeSpec BoolSettings where
  name := "Bool"
  outputs := [(resultOutput, .bool)]
  initial := {}
  fields := fields
  write := write
  errors s := nameErrors s.name
  plan s frame output := .onlyResult "Bool" output <|
    if s.name.isEmpty then return (Constant.bool s.value).expr frame.types
    else do Plan.ofExcept (← Plan.request (.parameter s.parameter))

end BoolSettings

end MaterialGraph
