import MaterialGraph.Constant
import MaterialGraph.Options

/-!
# Material channels

A material writes one value into each of its channels. Seven of them are fields
of the surface that the pixel stage shades, and the last one moves the vertex.
-/

namespace MaterialGraph

/-- A channel of a material. -/
inductive Channel where
  /-- The colour of the surface. -/
  | albedo
  /-- The light it gives off. -/
  | emission
  /-- How much it covers. -/
  | opacity
  /-- The direction it faces. -/
  | normal
  | roughness
  | metalness
  /-- How much light reaches it. -/
  | ambientOcclusion
  /-- Where the vertex is moved. -/
  | positionOffset
  deriving DecidableEq, Repr, Inhabited

namespace Channel

/-- All channels in the order they are written. -/
def all : List Channel :=
  [.albedo, .emission, .opacity, .normal, .roughness, .metalness, .ambientOcclusion,
    .positionOffset]

/-- The name in documents, which is also the name of the input. -/
def key : Channel → String
  | .albedo => "albedo"
  | .emission => "emission"
  | .opacity => "opacity"
  | .normal => "normal"
  | .roughness => "roughness"
  | .metalness => "metalness"
  | .ambientOcclusion => "ambient_occlusion"
  | .positionOffset => "position_offset"

/-- The channel with a name. -/
def ofKey? (key : String) : Option Channel := all.find? (·.key == key)

/-- The name of the field in program text. -/
def fieldName : Channel → String
  | .albedo => "Albedo"
  | .emission => "Emission"
  | .opacity => "Opacity"
  | .normal => "Normal"
  | .roughness => "Roughness"
  | .metalness => "Metalness"
  | .ambientOcclusion => "AmbientOcclusion"
  | .positionOffset => "PositionOffset"

/-- The type of what is written to a channel. -/
def type : Channel → ShaderType
  | .albedo | .emission | .normal | .positionOffset => .vector3
  | .opacity | .roughness | .metalness | .ambientOcclusion => .float

/-- The stage that writes the channel. -/
def stage : Channel → Stage
  | .positionOffset => .vertex
  | _ => .pixel

/-- The value used when the connected one fails. -/
def fallback : Channel → Constant
  | .albedo => .vector3 ⟨one, one, one⟩
  | .emission | .positionOffset => .vector3 ⟨zero, zero, zero⟩
  | .normal => .vector3 ⟨zero, zero, one⟩
  | .opacity | .roughness | .ambientOcclusion => .float one
  | .metalness => .float zero

/-- Reads a channel by its name. -/
def read (j : Json) : Except Mismatch Channel := j.readName all key

/-- A channel in a document. -/
def write (c : Channel) : Json := .string c.key

end Channel

end MaterialGraph
