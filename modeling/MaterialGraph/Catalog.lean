import MaterialGraph.NodeClass.Arithmetic
import MaterialGraph.NodeClass.Boundary
import MaterialGraph.NodeClass.Call
import MaterialGraph.NodeClass.Component
import MaterialGraph.NodeClass.Literal
import MaterialGraph.NodeClass.Sampling
import MaterialGraph.NodeClass.Selection
import MaterialGraph.NodeClass.Transform

/-!
# The catalog of node classes

Fifty-eight classes are built in. A pass only needs to know how to make a node
out of saved settings, so a catalog can also hold classes from elsewhere.
-/

namespace MaterialGraph

/-! ### The built-in classes -/

/-- A built-in class. -/
inductive NodeClass where
  | literal (k : LiteralKind)
  | bool
  | binary (op : BinaryOp)
  | lerp
  | clamp
  | remap
  | unary (op : UnaryOp)
  | split
  | combine
  | swizzle
  | surface (i : SurfaceInput)
  | matrix
  | transform
  | textureObject
  | samplerState
  | sample (k : SampleKind)
  /-- A selection when the program runs. -/
  | branch
  /-- A selection by a feature. -/
  | staticSwitch
  | function
  /-- The rim of a surface. -/
  | fresnel
  | subgraphInput
  | subgraphOutput
  | subgraphCall
  | materialResult
  | reroute
  | comment
  deriving DecidableEq, Repr

namespace NodeClass

/-- All classes in the order of the catalog. -/
def all : List NodeClass :=
  LiteralKind.all.map literal ++ [bool] ++ BinaryOp.all.map binary ++
    [lerp, clamp, remap] ++ UnaryOp.all.map unary ++ [split, combine, swizzle] ++
    SurfaceInput.all.map surface ++
    [matrix, transform, textureObject, samplerState] ++ SampleKind.all.map sample ++
    [branch, staticSwitch, function, fresnel, subgraphInput, subgraphOutput, subgraphCall,
      materialResult, reroute, comment]

/-- What the settings of a class are. -/
abbrev Settings : NodeClass → Type
  | .literal k => LiteralSettings k.Carrier
  | .bool => BoolSettings
  | .binary _ => BinarySettings
  | .lerp => LerpSettings
  | .clamp => ClampSettings
  | .remap => RemapSettings
  | .unary _ => UnarySettings
  | .split => SplitSettings
  | .combine => CombineSettings
  | .swizzle => SwizzleSettings
  | .surface _ => Unit
  | .matrix => MatrixSettings
  | .transform => TransformSettings
  | .textureObject => TextureObjectSettings
  | .samplerState => SamplerState
  | .sample _ => SampleSettings
  | .branch => BranchSettings
  | .staticSwitch => SwitchSettings
  | .function => FunctionSettings
  | .fresnel => FresnelSettings
  | .subgraphInput => InputSettings
  | .subgraphOutput => OutputSettings
  | .subgraphCall => CallSettings
  | .materialResult => MaterialSettings
  | .reroute => RerouteSettings
  | .comment => CommentSettings

/-- The description of a class. -/
def spec : (c : NodeClass) → NodeSpec c.Settings
  | .literal k => Literal.spec k
  | .bool => BoolSettings.spec
  | .binary op => op.spec
  | .lerp => LerpSettings.spec
  | .clamp => ClampSettings.spec
  | .remap => RemapSettings.spec
  | .unary op => op.spec
  | .split => SplitSettings.spec
  | .combine => CombineSettings.spec
  | .swizzle => SwizzleSettings.spec
  | .surface i => i.spec
  | .matrix => MatrixSettings.spec
  | .transform => TransformSettings.spec
  | .textureObject => TextureObjectSettings.spec
  | .samplerState => samplerStateSpec
  | .sample k => SampleSettings.spec k
  | .branch => BranchSettings.spec
  | .staticSwitch => SwitchSettings.spec
  | .function => FunctionSettings.spec
  | .fresnel => FresnelSettings.spec
  | .subgraphInput => InputSettings.spec
  | .subgraphOutput => OutputSettings.spec
  | .subgraphCall => CallSettings.spec
  | .materialResult => MaterialSettings.spec
  | .reroute => RerouteSettings.spec
  | .comment => CommentSettings.spec

/-- The name of a class in documents. -/
def name (c : NodeClass) : String := c.spec.name

/-- The class with a name. -/
def ofName? (name : String) : Option NodeClass := all.find? (·.name == name)

/-- A new node of a class, without identifier. -/
def newNode (c : NodeClass) : Node :=
  { className := c.name, version := c.spec.version, settings := c.spec.write c.spec.initial }

end NodeClass

/-- A node of a class. -/
def Node.of (c : NodeClass) (id : BitVec 128) (settings : c.Settings) : Node where
  id := ⟨id⟩
  className := c.name
  version := c.spec.version
  settings := c.spec.write settings

/-! ### Catalogs -/

/-- A class as a pass sees it. -/
structure NodeKind where
  name : String
  /-- The newest version of its settings. -/
  version : UInt32
  /-- A node out of saved settings. -/
  build : Json → Except Mismatch Behavior

/-- A built-in class as a pass sees it. -/
def NodeClass.kind (c : NodeClass) : NodeKind where
  name := c.name
  version := c.spec.version
  build settings := (c.spec.build settings).map c.spec.behavior

/-- The classes that a pass knows. -/
structure Catalog where
  /-- The classes, the first of a name counts. -/
  kinds : List NodeKind

namespace Catalog

/-- The class of a name. -/
def find? (c : Catalog) (name : String) : Option NodeKind := c.kinds.find? (·.name == name)

/-- The built-in classes. -/
def builtin : Catalog := ⟨NodeClass.all.map NodeClass.kind⟩

/-- The catalog with one more class, which replaces one of the same name. -/
def add (c : Catalog) (kind : NodeKind) : Catalog := ⟨kind :: c.kinds⟩

/-- The catalog without a class. -/
def remove (c : Catalog) (name : String) : Catalog := ⟨c.kinds.filter (·.name != name)⟩

end Catalog

end MaterialGraph
