import MaterialGraph.Globals.Texture

/-!
# Parameter globals

A parameter is a value that the material editor sets, or an attribute that game
code sets.
-/

namespace MaterialGraph

open RecordReader

/-! ### In the editor -/

/-- A control of the material editor. -/
inductive Widget where
  | slider
  /-- A colour picker. -/
  | color
  /-- A box to tick. -/
  | checkBox
  /-- A row of numbers. -/
  | vectorText
  deriving DecidableEq, Repr, Inhabited

namespace Widget

/-- All widgets. -/
def all : List Widget := [.slider, .color, .checkBox, .vectorText]

/-- The name in documents. -/
def key : Widget → String
  | .slider => "slider"
  | .color => "color"
  | .checkBox => "check_box"
  | .vectorText => "vector_text"

/-- The name in declarations. -/
def text : Widget → String
  | .slider => "Slider"
  | .color => "Color"
  | .checkBox => "CheckBox"
  | .vectorText => "VectorText"

/-- The usual control for a type. -/
def ofType : ShaderType → Widget
  | .bool => .checkBox
  | .color => .color
  | .vector2 | .vector3 | .vector4 => .vectorText
  | _ => .slider

/-- Reads a widget by its name. -/
def read (j : Json) : Except Mismatch Widget := j.readName all key

/-- A widget in a document. -/
def write (w : Widget) : Json := .string w.key

end Widget

/-- How the editor shows a parameter. -/
structure EditorHint where
  /-- The control, the usual one of the type if none is given. -/
  widget : Option Widget := none
  /-- The group of parameters it belongs to. -/
  group : String := ""
  deriving DecidableEq, Repr, Inhabited

namespace EditorHint

/-- Reads a hint. -/
def read (j : Json) : Except Mismatch EditorHint := j.readRecord "struct UiSettings" do
  let widget ← field "ui_type" (Json.readOption Widget.read) none
  let group ← field "group" Json.readString ""
  return { widget, group }

/-- A hint in a document. -/
def write (h : EditorHint) : Json := .record
  [("ui_type", h.widget.map Widget.write), ("group", Json.nonEmpty h.group)]

end EditorHint

/-! ### Parameters -/

/-- A parameter that a node asks for. -/
structure ParameterSpec where
  /-- The user's name for it. -/
  name : String
  type : ShaderType
  /-- The value it starts with. -/
  initial : Option Constant := none
  /-- The least and the greatest value. -/
  range : Option (Constant × Constant) := none
  /-- Whether game code sets it, and not the editor. -/
  isAttribute : Bool := false
  /-- How the editor shows it. -/
  hint : EditorHint := {}
  deriving DecidableEq, Repr

/-- A declared parameter. -/
structure Parameter where
  /-- Its name, an identifier. -/
  name : String
  global : String
  type : ShaderType
  initial : Option Constant
  range : Option (Constant × Constant)
  isAttribute : Bool
  hint : EditorHint
  /-- The node that declared it. -/
  node : NodeId
  deriving DecidableEq, Repr

namespace Parameter

/-- Where the value comes from: an attribute, or a control of the editor. -/
def sourceAnnotations (p : Parameter) : List String :=
  if p.isAttribute then ["Attribute( \"" ++ p.name ++ "\" );"]
  else
    ("UiType( " ++ (p.hint.widget.getD (.ofType p.type)).text ++ " );") ::
      if p.hint.group.isEmpty then [] else ["UiGroup( \"" ++ p.hint.group ++ "\" );"]

/-- The annotation of the initial value. -/
def initialAnnotations (p : Parameter) : List String :=
  match p.initial with
  | none => []
  | some c =>
    ["Default" ++ toString c.components.length ++ "( " ++ c.annotation ++ " );"]

/-- The annotations that give the range. -/
def rangeAnnotations (p : Parameter) : List String :=
  match p.range with
  | none => []
  | some (low, high) =>
    ["Range" ++ toString low.components.length ++ "( " ++ low.annotation ++ ", " ++
      high.annotation ++ " );"]

/-- The line that declares a parameter. -/
def declaration (types : TypeTable) (p : Parameter) : String :=
  declarationText (types.name p.type) p.global
    (p.sourceAnnotations ++ p.initialAnnotations ++ p.rangeAnnotations)

/-- The value of a parameter. -/
def expr (p : Parameter) : Expr := { type := p.type, code := p.global }

/-- A parameter in an answer. -/
def write (p : Parameter) : Json := .record
  [("name", some (.string p.name)), ("global", some (.string p.global)),
    ("value_type", some p.type.write), ("default", p.initial.map Constant.write),
    ("range", p.range.map fun (low, high) => .array [low.write, high.write]),
    ("attribute", some (.bool p.isAttribute)), ("ui", some p.hint.write)]

end Parameter

end MaterialGraph
