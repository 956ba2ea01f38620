import MaterialGraph.Globals.Texture

/-!
# Sampler globals

A sampler says how a texture is read between its texels and beyond its edges.
Equal states share one sampler.
-/

namespace MaterialGraph

open RecordReader

/-- How values between texels are found. -/
inductive TextureFilter where
  /-- By a filter that follows the view. -/
  | aniso
  /-- Linearly in the image. -/
  | bilinear
  /-- Linearly in the image and between its sizes. -/
  | trilinear
  /-- By the nearest texel. -/
  | point
  deriving DecidableEq, Repr, Inhabited

namespace TextureFilter

/-- All filters. -/
def all : List TextureFilter := [.aniso, .bilinear, .trilinear, .point]

/-- The name in documents. -/
def key : TextureFilter → String
  | .aniso => "aniso"
  | .bilinear => "bilinear"
  | .trilinear => "trilinear"
  | .point => "point"

/-- The name in declarations. -/
def text : TextureFilter → String
  | .aniso => "ANISO"
  | .bilinear => "BILINEAR"
  | .trilinear => "TRILINEAR"
  | .point => "POINT"

/-- Reads a filter by its name. -/
def read (j : Json) : Except Mismatch TextureFilter := j.readName all key

/-- A filter in a document. -/
def write (f : TextureFilter) : Json := .string f.key

end TextureFilter

/-- What lies beyond the edges of an image. -/
inductive AddressMode where
  /-- The image again. -/
  | wrap
  /-- The image reflected. -/
  | reflect
  /-- The texels of the edge. -/
  | clamp
  /-- A colour of its own. -/
  | border
  deriving DecidableEq, Repr, Inhabited

namespace AddressMode

/-- All address modes. -/
def all : List AddressMode := [.wrap, .reflect, .clamp, .border]

/-- The name in documents. -/
def key : AddressMode → String
  | .wrap => "wrap"
  | .reflect => "mirror"
  | .clamp => "clamp"
  | .border => "border"

/-- The name in declarations. -/
def text : AddressMode → String
  | .wrap => "WRAP"
  | .reflect => "MIRROR"
  | .clamp => "CLAMP"
  | .border => "BORDER"

/-- Reads an address mode by its name. -/
def read (j : Json) : Except Mismatch AddressMode := j.readName all key

/-- An address mode in a document. -/
def write (m : AddressMode) : Json := .string m.key

end AddressMode

/-- How a texture is read. -/
structure SamplerState where
  /-- Between texels. -/
  filter : TextureFilter := .aniso
  /-- Beyond the edges to the sides. -/
  addressU : AddressMode := .wrap
  /-- Beyond the edges above and below. -/
  addressV : AddressMode := .wrap
  deriving DecidableEq, Repr, Inhabited

namespace SamplerState

/-- The fields of a state, which may be part of a larger record. -/
def fields : RecordReader SamplerState := do
  let filter ← field "filter" TextureFilter.read .aniso
  let addressU ← field "address_u" AddressMode.read .wrap
  let addressV ← field "address_v" AddressMode.read .wrap
  return { filter, addressU, addressV }

/-- Reads the state of a sampler. -/
def read (j : Json) : Except Mismatch SamplerState := j.readRecord "struct SamplerDesc" fields

/-- The state of a sampler in a document. -/
def write (s : SamplerState) : Json := .record
  [("filter", some s.filter.write), ("address_u", some s.addressU.write),
    ("address_v", some s.addressV.write)]

end SamplerState

/-- A declared sampler. -/
structure Sampler where
  global : String
  /-- How it reads. -/
  state : SamplerState
  deriving DecidableEq, Repr

namespace Sampler

/-- The line that declares a sampler. -/
def declaration (types : TypeTable) (s : Sampler) : String :=
  declarationText (types.name .sampler) s.global
    ["Filter( " ++ s.state.filter.text ++ " );", "AddressU( " ++ s.state.addressU.text ++ " );",
      "AddressV( " ++ s.state.addressV.text ++ " );"]

/-- The value of a sampler. -/
def expr (s : Sampler) : Expr := { type := .sampler, code := s.global }

/-- A sampler in an answer. -/
def write (s : Sampler) : Json := .record
  [("global", some (.string s.global)), ("desc", some s.state.write)]

end Sampler

end MaterialGraph
