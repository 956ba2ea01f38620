import MaterialGraph.NodeClass.Surface

/-!
# Textures, samplers and samples

An image is declared as a texture. Textures and samplers are values, and a texture is read at
coordinates, flat or around a cube.
-/

namespace MaterialGraph

open Number RecordReader

/-! ### Images -/

/-- The image of a texture. -/
structure ImageSettings where
  image : String := ""
  /-- The name of the texture's attribute. -/
  name : String := ""
  colorSpace : ColorSpace := .srgb
  format : TextureFormat := .dxt5
  processor : String := ""
  /-- The colour used without image. -/
  fallback : Vec4 := .ones
  deriving DecidableEq, Repr

namespace ImageSettings

/-- The fields of an image, which a larger record takes over. -/
def fields : RecordReader ImageSettings := do
  let image ← field "image" Json.readString ""
  let name ← field "name" Json.readString ""
  let colorSpace ← field "color_space" ColorSpace.read .srgb
  let format ← field "format" TextureFormat.read .dxt5
  let processor ← field "processor" Json.readString ""
  let fallback ← field "default_color" Vec4.read .ones
  return { image, name, colorSpace, format, processor, fallback }

/-- The same fields in a document. -/
def entries (s : ImageSettings) : List (String × Option Json) :=
  [("image", Json.nonEmpty s.image), ("name", Json.nonEmpty s.name),
    ("color_space", some s.colorSpace.write), ("format", some s.format.write),
    ("processor", Json.nonEmpty s.processor), ("default_color", some s.fallback.write)]

/-- What the texture is made from. -/
def spec (s : ImageSettings) (cube : Bool) : TextureSpec where
  image := s.image
  colorSpace := s.colorSpace
  format := s.format
  processor := s.processor
  cube := cube

/-- The texture of the image. -/
def plan (s : ImageSettings) (cube : Bool) : Plan Expr := do
  Plan.ofExcept (← Plan.request (.texture (s.spec cube) s.name s.fallback))

/-- The image as a remark about the program. -/
def metadata (s : ImageSettings) : List (String × String) :=
  if s.image.isEmpty then [] else [("image", s.image)]

end ImageSettings

/-! ### Textures and samplers as values -/

/-- The settings of a texture as a value. -/
structure TextureObjectSettings where
  source : ImageSettings := {}
  cube : Bool := false
  deriving DecidableEq, Repr

namespace TextureObjectSettings

/-- Reads the settings of a texture. -/
def fields : RecordReader TextureObjectSettings := do
  let cube ← field "cube" Json.readBool false
  let source ← merged ImageSettings.fields
  return { source, cube }

/-- Saves the settings of a texture. -/
def write (s : TextureObjectSettings) : Json :=
  .record (s.source.entries ++ [("cube", some (.bool s.cube))])

/-- A texture without a sample of it. -/
def spec : NodeSpec TextureObjectSettings where
  name := "TextureObject"
  outputs := [(resultOutput, .texture2D)]
  initial := {}
  objectOnly := true
  fields := fields
  write := write
  metadata s := s.source.metadata
  plan s _ output := .onlyResult "TextureObject" output (s.source.plan s.cube)

end TextureObjectSettings

/-- A sampler. -/
def samplerStateSpec : NodeSpec SamplerState where
  name := "SamplerState"
  outputs := [(resultOutput, .sampler)]
  initial := {}
  objectOnly := true
  fields := merged SamplerState.fields
  write := SamplerState.write
  plan s _ output := .onlyResult "SamplerState" output (Plan.request (.sampler s))

/-! ### Samples -/

/-- Where textures are read: on a plane or around a cube. -/
inductive SampleKind where
  /-- At texture coordinates. -/
  | flat
  /-- In a direction. -/
  | cube
  deriving DecidableEq, Repr

namespace SampleKind

/-- Both kinds. -/
def all : List SampleKind := [.flat, .cube]

/-- The name of the class. -/
def name : SampleKind → String
  | .flat => "TextureSample"
  | .cube => "TextureCubeSample"

/-- The newest version of its settings. -/
def version : SampleKind → UInt32
  | .flat => 2
  | .cube => 1

/-- The type of the texture. -/
def textureType : SampleKind → ShaderType
  | .flat => .texture2D
  | .cube => .textureCube

/-- The name of the input that says where to read. -/
def coordsKey : SampleKind → String
  | .flat => "coords"
  | .cube => "direction"

/-- The type of that input. -/
def coordsType : SampleKind → ShaderType
  | .flat => .vector2
  | .cube => .vector3

/-- The number of its components. -/
def coordsWidth : SampleKind → Nat
  | .flat => 2
  | .cube => 3

/-- What is read when it is left open. -/
def coordsInput : SampleKind → SurfaceInput
  | .flat => .texCoord
  | .cube => .worldNormal

end SampleKind

/-- The settings of a sample. -/
structure SampleSettings where
  /-- The texture, the node's own one when it is left open. -/
  texture : Wire := {}
  /-- The sampler, the node's own one when it is left open. -/
  sampler : Wire := {}
  /-- Where to read. -/
  coords : Wire := {}
  /-- The node's own texture. -/
  source : ImageSettings := {}
  /-- The node's own sampler. -/
  state : SamplerState := {}
  deriving DecidableEq, Repr

namespace SampleSettings

/-- Reads the settings of a sample. -/
def fields (k : SampleKind) : RecordReader SampleSettings := do
  let texture ← field "texture" Wire.read {}
  let sampler ← field "sampler" Wire.read {}
  let coords ← field k.coordsKey Wire.read {}
  let state ← field "sampler_state" SamplerState.read {}
  let source ← merged ImageSettings.fields
  return { texture, sampler, coords, source, state }

/-- Saves the settings of a sample. -/
def write (k : SampleKind) (s : SampleSettings) : Json :=
  .record
    ([("texture", some s.texture.write), ("sampler", some s.sampler.write),
        (k.coordsKey, some s.coords.write)] ++
      s.source.entries ++ [("sampler_state", some s.state.write)])

/-- The texture of the input, or the node's own. -/
def texturePlan (k : SampleKind) (s : SampleSettings) : Plan Expr := do
  let texture ← match ← Plan.optional "texture" s.texture with
    | some e => pure e
    | none => s.source.plan (k == .cube)
  if texture.type = k.textureType then return texture
  else .fail (.typeMismatch ("expected " ++ k.textureType.text ++ ", got " ++ texture.type.text))

/-- The sampler of the input, or the node's own. -/
def samplerPlan (s : SampleSettings) : Plan Expr := do
  match ← Plan.optional "sampler" s.sampler with
  | some e =>
    if e.type = .sampler then return e
    else .fail (.typeMismatch ("expected sampler, got " ++ e.type.text))
  | none => Plan.request (.sampler s.state)

/-- Where the texture is read. -/
def coordsPlan (k : SampleKind) (s : SampleSettings) (frame : Frame) : Plan Expr := do
  match ← Plan.optional k.coordsKey s.coords with
  | some e => Plan.ofExcept (e.cast frame.types k.coordsWidth)
  | none => Plan.ofExcept (k.coordsInput.expr frame.stage)

/-- The text of a sample. The vertex stage cannot choose the size of the image and
reads the largest. -/
def code (stage : Stage) (texture sampler coords : Expr) : String :=
  match stage with
  | .pixel => texture.code ++ ".Sample( " ++ sampler.code ++ ", " ++ coords.code ++ " )"
  | .vertex => texture.code ++ ".SampleLevel( " ++ sampler.code ++ ", " ++ coords.code ++ ", 0 )"

/-- The outputs that are single channels of the colour. -/
def channelOutputs : List String := ["r", "g", "b", "a"]

/-- The plan of a sample. A channel is read off the node's own colour. -/
def plan (k : SampleKind) (s : SampleSettings) (frame : Frame) (output : String) : Plan Expr :=
  if output ∈ channelOutputs then do
    let color ← Plan.own resultOutput
    return { type := .float, code := color.operand ++ "." ++ output }
  else .onlyResult k.name output do
    let texture ← s.texturePlan k
    let sampler ← s.samplerPlan
    let coords ← s.coordsPlan k frame
    return { type := .vector4, code := code frame.stage texture sampler coords }

/-- A sample of a texture, as a whole or by its components. -/
def spec (k : SampleKind) : NodeSpec SampleSettings where
  name := k.name
  version := k.version
  inputs := [("texture", k.textureType), ("sampler", .sampler), (k.coordsKey, k.coordsType)]
  outputs := [(resultOutput, .vector4), ("r", .float), ("g", .float), ("b", .float), ("a", .float)]
  initial := {}
  objectOnly := true
  fields := fields k
  write := write k
  connections s := [("texture", s.texture), ("sampler", s.sampler), (k.coordsKey, s.coords)]
  metadata s := s.source.metadata
  plan := plan k

end SampleSettings

end MaterialGraph
