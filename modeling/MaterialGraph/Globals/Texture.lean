import MaterialGraph.Constant
import MaterialGraph.Expr
import MaterialGraph.NodeId

/-!
# Texture globals

Two nodes that ask for the same image, read in the same way, share one texture.
`TextureSpec` is what makes two textures the same.
-/

namespace MaterialGraph

open RecordReader

/-- The declaration of a global: its type, its name and its annotations. -/
def declarationText (type global : String) (annotations : List String) : String :=
  if annotations.isEmpty then type ++ " " ++ global ++ ";"
  else type ++ " " ++ global ++ " < " ++ " ".intercalate annotations ++ " >;"

/-! ### What a texture is made from -/

/-- How the numbers of an image stand for light. -/
inductive ColorSpace where
  /-- By the standard curve. -/
  | srgb
  /-- In proportion. -/
  | linear
  deriving DecidableEq, Repr, Inhabited

namespace ColorSpace

/-- Both colour spaces. -/
def all : List ColorSpace := [.srgb, .linear]

/-- The name in documents. -/
def key : ColorSpace → String
  | .srgb => "srgb"
  | .linear => "linear"

/-- Reads a colour space by its name. -/
def read (j : Json) : Except Mismatch ColorSpace := j.readName all key

/-- A colour space in a document. -/
def write (c : ColorSpace) : Json := .string c.key

end ColorSpace

/-- How a compiled texture is stored. -/
inductive TextureFormat where
  /-- Block compression with smooth alpha. -/
  | dxt5
  /-- Block compression with one bit of alpha. -/
  | dxt1
  /-- Block compression of high quality. -/
  | bc7
  /-- Two compressed channels. -/
  | ati2n
  /-- Eight bits a channel. -/
  | rgba8888
  /-- Sixteen bit floats. -/
  | rgba16161616f
  deriving DecidableEq, Repr, Inhabited

namespace TextureFormat

/-- All formats. -/
def all : List TextureFormat := [.dxt5, .dxt1, .bc7, .ati2n, .rgba8888, .rgba16161616f]

/-- The name in documents. -/
def key : TextureFormat → String
  | .dxt5 => "dxt5"
  | .dxt1 => "dxt1"
  | .bc7 => "bc7"
  | .ati2n => "ati2n"
  | .rgba8888 => "rgba8888"
  | .rgba16161616f => "rgba16161616f"

/-- The name for the texture compiler. -/
def text : TextureFormat → String
  | .dxt5 => "DXT5"
  | .dxt1 => "DXT1"
  | .bc7 => "BC7"
  | .ati2n => "ATI2N"
  | .rgba8888 => "RGBA8888"
  | .rgba16161616f => "RGBA16161616F"

/-- Reads a format by its name. -/
def read (j : Json) : Except Mismatch TextureFormat := j.readName all key

/-- A format in a document. -/
def write (f : TextureFormat) : Json := .string f.key

end TextureFormat

/-- All that makes two textures the same. -/
structure TextureSpec where
  image : String := ""
  /-- How its numbers stand for light. -/
  colorSpace : ColorSpace := .srgb
  /-- How it is stored. -/
  format : TextureFormat := .dxt5
  /-- What is done to the image. -/
  processor : String := ""
  /-- Whether it covers the faces of a cube. -/
  cube : Bool := false
  deriving DecidableEq, Repr, Inhabited

namespace TextureSpec

/-- The type of the texture. -/
def type (s : TextureSpec) : ShaderType := if s.cube then .textureCube else .texture2D

/-- Reads what a texture is made of. -/
def read (j : Json) : Except Mismatch TextureSpec := j.readRecord "a texture" do
  let image ← field "image" Json.readString ""
  let colorSpace ← field "color_space" ColorSpace.read .srgb
  let format ← field "format" TextureFormat.read .dxt5
  let processor ← field "processor" Json.readString ""
  let cube ← field "cube" Json.readBool false
  return { image, colorSpace, format, processor, cube }

/-- What a texture is made of, in a document. -/
def write (s : TextureSpec) : Json := .record
  [("image", Json.nonEmpty s.image), ("color_space", some s.colorSpace.write),
    ("format", some s.format.write), ("processor", Json.nonEmpty s.processor),
    ("cube", some (.bool s.cube))]

end TextureSpec

/-- What turns a texture's making into a compiled asset; it may fail. -/
abbrev TextureCompiler := TextureSpec → Option String

/-- Every image counts as compiled already. -/
def TextureCompiler.passThrough : TextureCompiler := fun s => some s.image

/-! ### Declared textures -/

/-- A declared texture. -/
structure Texture where
  /-- The name of its attribute. -/
  name : String
  global : String
  /-- What it is made from. -/
  spec : TextureSpec
  /-- The compiled asset, if there is one. -/
  asset : Option String
  /-- The colour used without asset. -/
  fallback : Vec4
  /-- The node that declared it. -/
  node : NodeId
  deriving DecidableEq, Repr

namespace Texture

/-- The line that declares a texture. -/
def declaration (types : TypeTable) (t : Texture) : String :=
  declarationText (types.name t.spec.type) t.global
    ["Attribute( \"" ++ t.name ++ "\" );",
      "SrgbRead( " ++ (if t.spec.colorSpace = .srgb then "True" else "False") ++ " );",
      "Default4( " ++ componentList t.fallback.toList ++ " );"]

/-- The texture as an expression that remembers its name. -/
def expr (t : Texture) : Expr :=
  { type := t.spec.type, code := t.global : Expr }.remark "texture" t.name

/-- A texture in an answer. -/
def write (t : Texture) : Json := .record
  [("name", some (.string t.name)), ("global", some (.string t.global)),
    ("request", some t.spec.write),
    ("asset", some (match t.asset with | some a => .string a | none => .null)),
    ("default_color", some t.fallback.write)]

end Texture

end MaterialGraph
