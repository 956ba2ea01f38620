import MaterialGraph.Plan

/-!
# Surface inputs

Values that the engine provides at each vertex or pixel. The pixel stage reads
what was interpolated, the vertex stage derives the same from the vertex itself.
-/

namespace MaterialGraph

/-- A value that the engine provides. -/
inductive SurfaceInput where
  /-- The texture coordinates. -/
  | texCoord
  | worldPosition
  | worldNormal
  /-- The direction towards the camera. -/
  | viewDirection
  | vertexColor
  | time
  | screenPosition
  deriving DecidableEq, Repr

namespace SurfaceInput

/-- All inputs from the surface. -/
def all : List SurfaceInput :=
  [.texCoord, .worldPosition, .worldNormal, .viewDirection, .vertexColor, .time, .screenPosition]

/-- The name of the class. -/
def name : SurfaceInput → String
  | .texCoord => "TexCoord"
  | .worldPosition => "WorldPosition"
  | .worldNormal => "WorldNormal"
  | .viewDirection => "ViewDirection"
  | .vertexColor => "VertexColor"
  | .time => "Time"
  | .screenPosition => "ScreenPosition"

/-- The type of the value. -/
def type : SurfaceInput → ShaderType
  | .texCoord | .screenPosition => .vector2
  | .worldPosition | .worldNormal | .viewDirection => .vector3
  | .vertexColor => .vector4
  | .time => .float

/-- The text of the position in the world. -/
def positionCode : Stage → String
  | .pixel => "i.vPositionWithOffsetWs.xyz"
  | .vertex => "mul( g_matObjectToWorld, float4( i.vPositionOs, 1 ) ).xyz"

/-- The text of an input; the position on the screen is known to pixels only. -/
def code? : SurfaceInput → Stage → Option String
  | .texCoord, .pixel => some "i.vTextureCoords.xy"
  | .texCoord, .vertex => some "i.vTexCoord.xy"
  | .worldPosition, stage => some (positionCode stage)
  | .worldNormal, .pixel => some "i.vNormalWs"
  | .worldNormal, .vertex => some "normalize( mul( (float3x3)g_matObjectToWorld, i.vNormalOs ) )"
  | .viewDirection, stage =>
    let position : Expr := { type := .vector3, code := positionCode stage }
    some ("normalize( g_vCameraPositionWs - " ++ position.operand ++ " )")
  | .vertexColor, .pixel => some "i.vVertexColor"
  | .vertexColor, .vertex => some "i.vColor"
  | .time, _ => some "g_flTime"
  | .screenPosition, .pixel => some "i.vPositionSs.xy"
  | .screenPosition, .vertex => none

/-- The value in a stage. -/
def expr (i : SurfaceInput) (stage : Stage) : Except Fault Expr :=
  match i.code? stage with
  | some code => .ok { type := i.type, code }
  | none => .error (.message "screen position is not available in the vertex stage")

/-- The classes of surface inputs, which have no settings. -/
def spec (i : SurfaceInput) : NodeSpec Unit where
  name := i.name
  outputs := [(resultOutput, i.type)]
  initial := ()
  fields := return ()
  write _ := .object []
  plan _ frame output := .onlyResult i.name output (.ofExcept (i.expr frame.stage))

end SurfaceInput

end MaterialGraph
