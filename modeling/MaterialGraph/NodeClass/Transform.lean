import MaterialGraph.Plan

/-!
# Matrices and transformed vectors

A matrix is one of the engine's or set by game code, and a vector is multiplied by it.
-/

namespace MaterialGraph

open Number RecordReader

/-! ### Matrices -/

/-- Where a matrix comes from. -/
inductive MatrixOrigin where
  /-- An attribute under the node's name. -/
  | named
  | objectToWorld
  | worldToView
  | viewToProjection
  deriving DecidableEq, Repr, Inhabited

namespace MatrixOrigin

/-- All origins. -/
def all : List MatrixOrigin := [.named, .objectToWorld, .worldToView, .viewToProjection]

/-- The name in documents. -/
def key : MatrixOrigin → String
  | .named => "attribute"
  | .objectToWorld => "object_to_world"
  | .worldToView => "world_to_view"
  | .viewToProjection => "view_to_projection"

/-- The engine's global. -/
def global? : MatrixOrigin → Option String
  | .named => none
  | .objectToWorld => some "g_matObjectToWorld"
  | .worldToView => some "g_matWorldToView"
  | .viewToProjection => some "g_matViewToProjection"

/-- Reads an origin by its name. -/
def read (j : Json) : Except Mismatch MatrixOrigin := j.readName all key

/-- An origin in a document. -/
def write (o : MatrixOrigin) : Json := .string o.key

end MatrixOrigin

/-- The settings of a matrix. -/
structure MatrixSettings where
  origin : MatrixOrigin := .named
  /-- The name of the attribute. -/
  name : String := ""
  deriving DecidableEq, Repr

namespace MatrixSettings

/-- Reads the settings of a matrix. -/
def fields : RecordReader MatrixSettings := do
  let origin ← field "source" MatrixOrigin.read .named
  let name ← field "name" Json.readString ""
  return { origin, name }

/-- Saves the settings of a matrix. -/
def write (s : MatrixSettings) : Json := .record
  [("source", some s.origin.write), ("name", Json.nonEmpty s.name)]

/-- A matrix of the engine, or an attribute. -/
def spec : NodeSpec MatrixSettings where
  name := "MatrixAttribute"
  outputs := [(resultOutput, .matrix4)]
  initial := {}
  fields := fields
  write := write
  errors s :=
    if s.origin = .named ∧ (Text.Identifier.ofText s.name).isEmpty then
      ["matrix attribute requires a name"]
    else []
  plan s _ output := .onlyResult "MatrixAttribute" output <|
    match s.origin.global? with
    | some global => return { type := .matrix4, code := global }
    | none => do
      Plan.ofExcept
        (← Plan.request (.parameter { name := s.name, type := .matrix4, isAttribute := true }))

end MatrixSettings

/-! ### Transformed vectors -/

/-- The settings of a transformed vector. A matrix of four rows needs a fourth
component: one for a position, zero for a direction. -/
structure TransformSettings where
  matrix : Wire := {}
  vector : Wire := {}
  /-- The fourth component. -/
  w : Single := one
  deriving DecidableEq, Repr

namespace TransformSettings

/-- Reads the settings of a transformation. -/
def fields : RecordReader TransformSettings := do
  let matrix ← field "matrix" Wire.read {}
  let vector ← field "vector" Wire.read {}
  let w ← field "w" Json.readSingle one
  return { matrix, vector, w }

/-- Saves the settings of a transformation. -/
def write (s : TransformSettings) : Json := .record
  [("matrix", some s.matrix.write), ("vector", some s.vector.write), ("w", some (.ofSingle s.w))]

/-- The product of a matrix and a vector of three components. -/
def emit (s : TransformSettings) (matrix vector : Expr) : Except Fault Expr :=
  match matrix.type with
  | .matrix4 =>
    .ok {
      type := .vector3
      code := "mul( " ++ matrix.code ++ ", float4( " ++ vector.code ++ ", " ++ floatLiteral s.w ++
        " ) ).xyz" }
  | .matrix3 =>
    .ok { type := .vector3, code := "mul( " ++ matrix.code ++ ", " ++ vector.code ++ " )" }
  | other => .error (.typeMismatch (other.text ++ " cannot transform a vector3"))

/-- A vector multiplied by a matrix. -/
def spec : NodeSpec TransformSettings where
  name := "TransformVector"
  inputs := [("matrix", .matrix4), ("vector", .vector3)]
  outputs := [(resultOutput, .vector3)]
  initial := {}
  fields := fields
  write := write
  connections s := [("matrix", s.matrix), ("vector", s.vector)]
  plan s frame output := .onlyResult "TransformVector" output do
    let matrix ← .required "matrix" s.matrix
    let vector ← .orDefault frame.types "vector" s.vector (.vector3 ⟨zero, zero, zero⟩)
    let vector ← Plan.ofExcept (vector.cast frame.types 3)
    Plan.ofExcept (s.emit matrix vector)

end TransformSettings

end MaterialGraph
