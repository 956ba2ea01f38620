import MaterialGraph.NodeClass.Surface

/-!
# Calls of functions

A custom function is written by the user; its declaration is built from its
arguments and appears once, however many nodes call it. The Fresnel term is a
function of the library.
-/

namespace MaterialGraph

open Number RecordReader Text

/-! ### Custom functions -/

/-- An argument of a custom function. -/
structure FunctionArgument where
  name : String := ""
  type : ShaderType := .float
  input : Wire := {}
  deriving DecidableEq, Repr

namespace FunctionArgument

/-- Reads an argument. -/
def read (j : Json) : Except Mismatch FunctionArgument := j.readRecord "struct FunctionArgument" do
  let name ← field "name" Json.readString ""
  let type ← field "value_type" ShaderType.read .float
  let input ← field "input" Wire.read {}
  return { name, type, input }

/-- An argument in a document. -/
def write (a : FunctionArgument) : Json := .record
  [("name", some (.string a.name)), ("value_type", some a.type.write),
    ("input", some a.input.write)]

end FunctionArgument

/-- The settings of a custom function. -/
structure FunctionSettings where
  name : String := ""
  /-- Its statements. -/
  body : String := ""
  resultType : ShaderType := .float
  arguments : List FunctionArgument := []
  deriving DecidableEq, Repr

/-- Whether a text contains another. -/
def containsText (part : List Char) : List Char → Bool
  | [] => part.isEmpty
  | c :: cs => part.isPrefixOf (c :: cs) || containsText part cs

namespace FunctionSettings

/-- Reads the settings of a function. -/
def fields : RecordReader FunctionSettings := do
  let name ← field "name" Json.readString ""
  let body ← field "body" Json.readString ""
  let resultType ← field "result_type" ShaderType.read .float
  let arguments ← field "arguments" (Json.readList FunctionArgument.read) []
  return { name, body, resultType, arguments }

/-- Saves the settings of a function. -/
def write (s : FunctionSettings) : Json := .record
  [("name", some (.string s.name)), ("body", some (.string s.body)),
    ("result_type", some s.resultType.write),
    ("arguments", some (.ofList FunctionArgument.write s.arguments))]

/-- A line of the body: indented, without blanks at its end. -/
def bodyLine (line : List Char) : String :=
  if (trim line).isEmpty then "" else "    " ++ String.ofList (trimEnd line)

/-- Result, name and arguments. -/
def signature (types : TypeTable) (s : FunctionSettings) : String :=
  let arguments := s.arguments.map fun a => types.name a.type ++ " " ++ a.name
  types.name s.resultType ++ " " ++ s.name ++
    if arguments.isEmpty then "()" else "( " ++ ", ".intercalate arguments ++ " )"

/-- The function in program text. -/
def declaration (types : TypeTable) (s : FunctionSettings) : String :=
  s.signature types ++ "\n\x7b\n" ++
    joinLines ((lines (trim s.body.toList)).map bodyLine) ++ "\n\x7d"

/-- What is wrong with the argument at the end of a list: its name, or that it has
the name of an earlier one. -/
def argumentErrors (earlier : List FunctionArgument) (a : FunctionArgument) : List String :=
  (if isIdentifier a.name then [] else ["\"" ++ a.name ++ "\" is not a valid argument name"]) ++
    if earlier.any (·.name == a.name) then ["duplicate argument \"" ++ a.name ++ "\""] else []

/-- What is wrong with a list of arguments that follows others. -/
def argumentListErrors (earlier : List FunctionArgument) : List FunctionArgument → List String
  | [] => []
  | a :: rest => argumentErrors earlier a ++ argumentListErrors (earlier ++ [a]) rest

/-- What is wrong with the settings. -/
def errors (s : FunctionSettings) : List String :=
  (if isIdentifier s.name then [] else ["\"" ++ s.name ++ "\" is not a valid function name"]) ++
    (if s.resultType = .any ∨ s.resultType.isObject then
      [s.resultType.text ++ " cannot be returned"]
    else []) ++
    argumentListErrors [] s.arguments

/-- The values of the arguments, one after the other. An argument that has a zero
may be left open. -/
def argumentPlan (types : TypeTable) : List FunctionArgument → Plan (List Expr)
  | [] => return []
  | a :: rest => do
    let e ← match Constant.zero? a.type with
      | some c => Plan.orDefault types a.name a.input c
      | none => Plan.required a.name a.input
    let e ← Plan.ofExcept (e.castTo types a.type)
    return e :: (← argumentPlan types rest)

/-- The call of a function that the user has written. -/
def spec : NodeSpec FunctionSettings where
  name := "CustomFunction"
  outputs := [(resultOutput, .any)]
  initial := {}
  fields := fields
  write := write
  connections s := s.arguments.map fun a => (a.name, a.input)
  errors := errors
  warnings s :=
    if containsText "return".toList s.body.toList then []
    else [s.name ++ " has no return statement"]
  plan s frame output := .onlyResult "CustomFunction" output do
    let name ← Plan.ofExcept (← Plan.request (.function (s.declaration frame.types)))
    let arguments ← argumentPlan frame.types s.arguments
    return .ofCall name arguments s.resultType

end FunctionSettings

/-! ### The Fresnel term -/

/-- The settings of the Fresnel term. -/
structure FresnelSettings where
  /-- The normal, that of the surface when it is left open. -/
  normal : Wire := {}
  /-- The direction of the view, that of the camera when it is left open. -/
  view : Wire := {}
  /-- How narrow the rim is. -/
  power : Wire := {}
  defaultPower : Single := .ofInt 5
  deriving DecidableEq, Repr

namespace FresnelSettings

/-- Reads the settings of a rim. -/
def fields : RecordReader FresnelSettings := do
  let normal ← field "normal" Wire.read {}
  let view ← field "view" Wire.read {}
  let power ← field "power" Wire.read {}
  let defaultPower ← field "default_power" Json.readSingle (.ofInt 5)
  return { normal, view, power, defaultPower }

/-- Saves the settings of a rim. -/
def write (s : FresnelSettings) : Json := .record
  [("normal", some s.normal.write), ("view", some s.view.write), ("power", some s.power.write),
    ("default_power", some (.ofSingle s.defaultPower))]

/-- The function in program text. -/
def source : String :=
  "float Fresnel( float3 vNormal, float3 vView, float flPower )\n\x7b\n" ++
    "    return pow( 1.0f - saturate( dot( normalize( vNormal ), normalize( vView ) ) )," ++
    " flPower );\n\x7d"

/-- A direction: the input's, or the surface's own. -/
def direction (frame : Frame) (input : String) (wire : Wire) (i : SurfaceInput) : Plan Expr := do
  match ← Plan.optional input wire with
  | some e => Plan.ofExcept (e.cast frame.types 3)
  | none => Plan.ofExcept (i.expr frame.stage)

/-- The rim of a surface, by a function of the library. -/
def spec : NodeSpec FresnelSettings where
  name := "Fresnel"
  inputs := [("normal", .vector3), ("view", .vector3), ("power", .float)]
  outputs := [(resultOutput, .float)]
  initial := {}
  fields := fields
  write := write
  connections s := [("normal", s.normal), ("view", s.view), ("power", s.power)]
  plan s frame output := .onlyResult "Fresnel" output do
    let name ← Plan.ofExcept (← Plan.request (.function source))
    let normal ← direction frame "normal" s.normal .worldNormal
    let view ← direction frame "view" s.view .viewDirection
    let power ← .orDefault frame.types "power" s.power (.float s.defaultPower)
    let power ← Plan.ofExcept (power.cast frame.types 1)
    return .ofCall name [normal, view, power] .float

end FresnelSettings

end MaterialGraph
