import MaterialGraph.Pass.State
import MaterialGraph.Template

/-!
# Programs

What a pass has made, set out by a template: the source text, and the tables of
all that the source declares. A pass that reported something fatal gives no
program.
-/

namespace MaterialGraph

open Text

/-! ### Last lines -/

/-- A value written into a channel. -/
structure Write where
  channel : Channel
  value : Expr
  deriving DecidableEq, Repr

/-- The line that writes a channel: the offset moves the vertex, the others are
fields of the material. -/
def Write.line (w : Write) : String :=
  match w.channel.stage with
  | .vertex => "o.vPositionWs += " ++ w.value.code ++ ";"
  | .pixel => "m." ++ w.channel.fieldName ++ " = " ++ w.value.code ++ ";"

/-- The lines that write the channels of a stage. -/
def writeLines (stage : Stage) (ws : List Write) : List String :=
  (ws.filter (·.channel.stage == stage)).map Write.line

/-- The line that returns the colour of a material. -/
def Shading.line : Shading → String
  | .lit => "return ShadingModelStandard::Shade( i, m );"
  | .unlit => "return float4( m.Albedo + m.Emission, m.Opacity );"

/-! ### Drafts -/

/-- What a compilation is for. -/
inductive Purpose where
  | material
  /-- One value shown as a colour. -/
  | preview
  deriving DecidableEq, Repr

/-- A finished pass with the last lines of both stages. -/
structure Draft where
  purpose : Purpose
  pass : Pass
  /-- The last lines of the vertex stage. -/
  vertexEnd : List String := []
  /-- The last lines of the pixel stage. -/
  pixelEnd : List String

/-- How far statements are moved to the right. -/
def statementMargin : String := "        "

/-- Lines of a stage, each moved to the right. -/
def statementBlock (ls : List String) : String := joinLines (ls.map (statementMargin ++ ·))

/-- The lines of statements in their order. -/
def statementLines (ss : List Statement) : List String := ss.flatMap Statement.lines

namespace Draft

/-- The lines of the vertex stage. -/
def vertexBody (d : Draft) : List String := statementLines d.pass.vertex ++ d.vertexEnd

/-- The lines of the pixel stage before its last ones. -/
def pixelBody (d : Draft) : List String :=
  (match d.purpose with
    | .material => ["Material m = Material::Init();"]
    | .preview => []) ++ statementLines d.pass.pixel

/-- The render modes of a program. -/
def modes (d : Draft) (blend : Blend) : List String :=
  match d.purpose, blend with
  | .preview, _ => ["Forward();"]
  | .material, .translucent => ["Forward();", "ToolsVis( S_MODE_TOOLS_VIS );"]
  | .material, _ => ["Forward();", "Depth();", "ToolsVis( S_MODE_TOOLS_VIS );"]

/-- A text that stands between quotes: an apostrophe takes the place of a quote. -/
def unquoted (s : String) : String :=
  String.ofList (s.toList.map fun c => if c = '"' then '\x27' else c)

/-- The line that describes a program. -/
def descriptionLine (description : String) : String :=
  let text := if description.isEmpty then "Shader Graph" else description
  "Description = \"" ++ unquoted text ++ "\";"

/-- What stands in each place of a template. -/
def filling (d : Draft) (types : TypeTable) (o : Options) : Slot → String
  | .header => indentLines Globals.margin [descriptionLine o.description]
  | .features => d.pass.globals.featuresBlock
  | .modes => indentLines Globals.margin (d.modes o.blend)
  | .common => d.pass.globals.commonBlock types
  | .vertexInput => ""
  | .pixelInput => ""
  | .vertexBody => statementBlock d.vertexBody
  | .pixelBody => statementBlock d.pixelBody
  | .pixelResult => statementBlock d.pixelEnd

end Draft

/-! ### Programs -/

/-- A program: its source, and what the source declares. -/
structure Program where
  source : String
  parameters : List Parameter
  textures : List Texture
  samplers : List Sampler
  features : List Feature
  /-- The names of the functions. -/
  functions : List String
  /-- What the nodes added. -/
  metadata : Dictionary (List String)
  deriving DecidableEq, Repr

/-- A program in an answer. -/
def Program.write (p : Program) : Json := .record
  [("source", some (.string p.source)),
    ("parameters", some (.ofList Parameter.write p.parameters)),
    ("textures", some (.ofList Texture.write p.textures)),
    ("samplers", some (.ofList Sampler.write p.samplers)),
    ("features", some (.ofList Feature.write p.features)),
    ("functions", some (.ofList .string p.functions)),
    ("metadata", some (.object (p.metadata.map fun (key, values) =>
      (key, .ofList .string values))))]

/-- The program of a draft, set out by a template. -/
def Draft.program (d : Draft) (types : TypeTable) (o : Options) (t : Template) : Program where
  source := t.assemble (d.filling types o)
  parameters := d.pass.globals.parameters
  textures := d.pass.globals.textures
  samplers := d.pass.globals.samplers
  features := d.pass.globals.features
  functions := d.pass.globals.functions.map (·.name)
  metadata := d.pass.metadata

/-- What a compilation gives. -/
structure Compilation where
  /-- The program, unless something fatal was reported. -/
  program : Option Program
  report : Report
  compiled : List TextureSpec
  journal : List Json

namespace Compilation

/-- The source of the program, if there is one. -/
def source? (c : Compilation) : Option String := c.program.map (·.source)

/-- Whether the program can be used as it is: nothing above a warning was reported. -/
def isShippable (c : Compilation) : Bool := c.program.isSome && !c.report.hasErrors

end Compilation

/-- The compilation that a draft and a template give. -/
def Draft.compilation (d : Draft) (types : TypeTable) (o : Options) (t : Template) :
    Compilation where
  program := if d.pass.report.hasFatal then none else some (d.program types o t)
  report := d.pass.report
  compiled := d.pass.compiled
  journal := d.pass.journal

end MaterialGraph
