import MaterialGraph.Plan

/-!
# The boundary of a document

A document has named inputs and outputs, and other documents call it by a node
that binds the inputs. The material result is where a material graph ends, a
reroute passes a value on, and a comment has no value at all.
-/

namespace MaterialGraph

open RecordReader

/-- The name of the output under which a document's result is asked for. -/
def valueOutput : String := "value"

/-! ### Inputs -/

/-- The settings of a document's input. -/
structure InputSettings where
  name : String := ""
  type : ShaderType := .float
  /-- The value when a call binds none, or there is no call. -/
  fallback : Constant := default
  /-- Whether every call must bind it. -/
  isRequired : Bool := false
  deriving DecidableEq, Repr

namespace InputSettings

/-- Reads the settings of an input. -/
def fields : RecordReader InputSettings := do
  let name ← field "name" Json.readString ""
  let type ← field "value_type" ShaderType.read .float
  let fallback ← field "default" Constant.read default
  let isRequired ← field "required" Json.readBool false
  return { name, type, fallback, isRequired }

/-- Saves the settings of an input. -/
def write (s : InputSettings) : Json := .record
  [("name", some (.string s.name)), ("value_type", some s.type.write),
    ("default", some s.fallback.write), ("required", Json.whenTrue s.isRequired)]

/-- The value of the input: what the call binds, in the caller's scope, or the
default. -/
def plan (s : InputSettings) (frame : Frame) : Plan Expr := do
  let e ← match ← Plan.request (.argument s.name) with
    | some outcome => Plan.ofExcept (outcome.toExpr s.name)
    | none =>
      if s.isRequired && !frame.scope.isEmpty then .fail (.missingInput s.name)
      else pure (s.fallback.expr frame.types)
  Plan.ofExcept (e.castTo frame.types s.type)

/-- An input of a subgraph: what the caller binds it to, or its default. -/
def spec : NodeSpec InputSettings where
  name := "SubgraphInput"
  outputs := [(resultOutput, .any)]
  initial := {}
  fields := fields
  write := write
  errors s :=
    (if s.name.isEmpty then ["subgraph input requires a name"] else []) ++
      if s.type = .any then ["subgraph input \"" ++ s.name ++ "\" requires a type"] else []
  role s := .subgraphInput s.name
  plan s frame output := .onlyResult "SubgraphInput" output (s.plan frame)

end InputSettings

/-! ### Outputs -/

/-- The settings of a document's output. -/
structure OutputSettings where
  name : String := ""
  value : Wire := {}
  /-- Its type, left open to keep that of the value. -/
  type : ShaderType := .any
  /-- The channel it provides when the document is compiled on its own. -/
  channel : Option Channel := none
  deriving DecidableEq, Repr

namespace OutputSettings

/-- Reads the settings of an output. -/
def fields : RecordReader OutputSettings := do
  let name ← field "name" Json.readString ""
  let value ← field "value" Wire.read {}
  let type ← field "value_type" ShaderType.read .any
  let channel ← field "preview" (Json.readOption Channel.read) none
  return { name, value, type, channel }

/-- Saves the settings of an output. -/
def write (s : OutputSettings) : Json := .record
  [("name", some (.string s.name)), ("value", some s.value.write),
    ("value_type", some s.type.write), ("preview", s.channel.map Channel.write)]

/-- An output of a subgraph. -/
def spec : NodeSpec OutputSettings where
  name := "SubgraphOutput"
  version := 2
  inputs := [(valueOutput, .any)]
  outputs := [(valueOutput, .any)]
  initial := {}
  fields := fields
  write := write
  connections s := [(valueOutput, s.value)]
  errors s := if s.name.isEmpty then ["subgraph output requires a name"] else []
  warnings s :=
    if s.value.isConnected then [] else ["subgraph output \"" ++ s.name ++ "\" is not connected"]
  role s := .subgraphOutput s.name s.channel
  plan s frame output :=
    if output = valueOutput then do
      let e ← Plan.required valueOutput s.value
      Plan.ofExcept (e.castTo frame.types s.type)
    else .fail (.noOutput "SubgraphOutput" output)

end OutputSettings

/-! ### Calls -/

/-- The settings of a call. -/
structure CallSettings where
  /-- The document that is called. -/
  path : String := ""
  /-- What its inputs are bound to. -/
  inputs : Dictionary Wire := []
  deriving DecidableEq, Repr

namespace CallSettings

/-- Reads the settings of a call. -/
def fields : RecordReader CallSettings := do
  let path ← field "path" Json.readString ""
  let inputs ← field "inputs" (Json.readMap Wire.read) []
  return { path, inputs }

/-- Saves the settings of a call. -/
def write (s : CallSettings) : Json := .record
  [("path", some (.string s.path)),
    ("inputs", some (.object (s.inputs.map fun (key, wire) => (key, wire.write))))]

/-- The call of a subgraph, with an output for each of its outputs. -/
def spec : NodeSpec CallSettings where
  name := "Subgraph"
  initial := {}
  fields := fields
  write := write
  connections s := s.inputs
  errors s := if s.path.isEmpty then ["subgraph path is empty"] else []
  metadata s := [("subgraph", s.path)]
  role s := .subgraphCall s.path
  plan _ _ output := do Plan.ofExcept (← Plan.request (.call output))

end CallSettings

/-! ### The material result -/

/-- The settings of the material result: one input for each channel. -/
structure MaterialSettings where
  albedo : Wire := {}
  emission : Wire := {}
  opacity : Wire := {}
  normal : Wire := {}
  roughness : Wire := {}
  metalness : Wire := {}
  ambientOcclusion : Wire := {}
  positionOffset : Wire := {}
  deriving DecidableEq, Repr

namespace MaterialSettings

/-- The input of a channel. -/
def wire (s : MaterialSettings) : Channel → Wire
  | .albedo => s.albedo
  | .emission => s.emission
  | .opacity => s.opacity
  | .normal => s.normal
  | .roughness => s.roughness
  | .metalness => s.metalness
  | .ambientOcclusion => s.ambientOcclusion
  | .positionOffset => s.positionOffset

/-- Reads the settings of a result. -/
def fields : RecordReader MaterialSettings := do
  let albedo ← field "albedo" Wire.read {}
  let emission ← field "emission" Wire.read {}
  let opacity ← field "opacity" Wire.read {}
  let normal ← field "normal" Wire.read {}
  let roughness ← field "roughness" Wire.read {}
  let metalness ← field "metalness" Wire.read {}
  let ambientOcclusion ← field "ambient_occlusion" Wire.read {}
  let positionOffset ← field "position_offset" Wire.read {}
  return {
    albedo, emission, opacity, normal, roughness, metalness, ambientOcclusion, positionOffset }

/-- Saves the settings of a result. -/
def write (s : MaterialSettings) : Json :=
  .record (Channel.all.map fun c => (c.key, some (s.wire c).write))

/-- The result of a material, with an input for each channel. -/
def spec : NodeSpec MaterialSettings where
  name := "MaterialResult"
  inputs := Channel.all.map fun c => (c.key, c.type)
  initial := {}
  fields := fields
  write := write
  connections s := Channel.all.map fun c => (c.key, s.wire c)
  role _ := .materialRoot
  plan s frame output :=
    match Channel.ofKey? output with
    | none => .fail (.noOutput "MaterialResult" output)
    | some c => do
      let e ← Plan.orDefault frame.types c.key (s.wire c) c.fallback
      Plan.ofExcept (e.castTo frame.types c.type)

end MaterialSettings

/-! ### Reroutes and comments -/

/-- The settings of a reroute. -/
structure RerouteSettings where
  /-- The value that is passed on. -/
  input : Wire := {}
  deriving DecidableEq, Repr

namespace RerouteSettings

/-- A stop on the way of a value, which passes it on. -/
def spec : NodeSpec RerouteSettings where
  name := "Reroute"
  inputs := [("input", .any)]
  outputs := [(resultOutput, .any)]
  initial := {}
  fields := do return { input := ← field "input" Wire.read {} }
  write s := .record [("input", some s.input.write)]
  connections s := [("input", s.input)]
  plan s _ output := .onlyResult "Reroute" output (.required "input" s.input)

end RerouteSettings

/-- The settings of a comment. -/
structure CommentSettings where
  title : String := ""
  text : String := ""
  deriving DecidableEq, Repr

namespace CommentSettings

/-- The class of comments, which have no outputs. -/
def spec : NodeSpec CommentSettings where
  name := "Comment"
  initial := {}
  fields := do
    let title ← field "title" Json.readString ""
    let text ← field "text" Json.readString ""
    return { title, text }
  write s := .record [("title", Json.nonEmpty s.title), ("text", Json.nonEmpty s.text)]
  plan _ _ output := .fail (.noOutput "Comment" output)

end CommentSettings

end MaterialGraph
