import MaterialGraph.Json.Record

/-!
# Shader types

The types of values that flow along wires. Scalars and vectors have a component
count; matrices, samplers and textures do not, and `any` stands for a value
whose type is decided by what is connected.
-/

namespace MaterialGraph

/-- The type of a value. -/
inductive ShaderType where
  | bool
  | int
  | float
  | vector2
  | vector3
  | vector4
  /-- Red, green, blue and alpha. -/
  | color
  | matrix2
  | matrix3
  | matrix4
  /-- How a texture is read. -/
  | sampler
  | texture2D
  /-- A texture on the six faces of a cube. -/
  | textureCube
  /-- A type left open. -/
  | any
  deriving DecidableEq, Repr, Inhabited

namespace ShaderType

/-- All types in the order of the table. -/
def all : List ShaderType :=
  [.bool, .int, .float, .vector2, .vector3, .vector4, .color, .matrix2, .matrix3, .matrix4,
    .sampler, .texture2D, .textureCube, .any]

theorem mem_all (t : ShaderType) : t ∈ all := by cases t <;> decide

/-- Where a type stands in the order. -/
def rank (t : ShaderType) : Nat := all.idxOf t

theorem rank_injective {s t : ShaderType} (h : s.rank = t.rank) : s = t := by
  have hall : ∀ s ∈ all, ∀ t ∈ all, s.rank = t.rank → s = t := by decide
  exact hall s s.mem_all t t.mem_all h

/-- The number of components of a scalar or a vector. -/
def components : ShaderType → Option Nat
  | .bool | .int | .float => some 1
  | .vector2 => some 2
  | .vector3 => some 3
  | .vector4 | .color => some 4
  | _ => none

/-- The real vector type with `n` components; one component is a scalar. -/
def vector? : Nat → Option ShaderType
  | 1 => some .float
  | 2 => some .vector2
  | 3 => some .vector3
  | 4 => some .vector4
  | _ => none

/-- Scalars and vectors. -/
def isNumeric (t : ShaderType) : Bool := t.components.isSome

/-- Types with one component. -/
def isScalar (t : ShaderType) : Bool := t matches .bool | .int | .float

/-- Types of square matrices. -/
def isMatrix (t : ShaderType) : Bool := t matches .matrix2 | .matrix3 | .matrix4

/-- Types whose values are resources. -/
def isObject (t : ShaderType) : Bool := t matches .sampler | .texture2D | .textureCube

/-- The name used in messages. -/
def text : ShaderType → String
  | .bool => "bool"
  | .int => "int"
  | .float => "float"
  | .vector2 => "vector2"
  | .vector3 => "vector3"
  | .vector4 => "vector4"
  | .color => "color"
  | .matrix2 => "matrix2"
  | .matrix3 => "matrix3"
  | .matrix4 => "matrix4"
  | .sampler => "sampler"
  | .texture2D => "texture2d"
  | .textureCube => "texture_cube"
  | .any => "any"

/-- The name used in documents, which differs for the flat texture only. -/
def key : ShaderType → String
  | .texture2D => "texture2_d"
  | t => t.text

/-- The type of a component-wise operation. Scalars broadcast to any width, two
vectors must agree in width, and different types of one width give the plain
vector. -/
def combine (s t : ShaderType) : Option ShaderType :=
  match s.components, t.components with
  | some 1, some 1 =>
    some (match s, t with
      | .int, .int => .int
      | .bool, .bool => .bool
      | _, _ => .float)
  | some 1, some _ => some t
  | some _, some 1 => some s
  | some m, some n => if m = n then (if s = t then some s else vector? m) else none
  | _, _ => none

/-- Reads a type by its name. -/
def read (j : Json) : Except Mismatch ShaderType := j.readName all key

/-- A type in a document. -/
def write (t : ShaderType) : Json := .string t.key

end ShaderType

end MaterialGraph
