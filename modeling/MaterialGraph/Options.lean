import MaterialGraph.Json.Record

/-!
# Stages, modes and options

The stages of a program, when its features are decided, and what a compilation can be asked for.
-/

namespace MaterialGraph

open RecordReader

/-- A stage of a program. -/
inductive Stage where
  | vertex
  | pixel
  deriving DecidableEq, Repr, Inhabited

namespace Stage

/-- The name in answers. -/
def key : Stage → String
  | .vertex => "vertex"
  | .pixel => "pixel"

/-- The place of a stage in the program. -/
def index : Stage → Nat
  | .vertex => 0
  | .pixel => 1

end Stage

/-- When features are decided. -/
inductive Mode where
  /-- When the program is built, by static combos. -/
  | final
  /-- When the program runs, by attributes. -/
  | preview
  deriving DecidableEq, Repr, Inhabited

namespace Mode

/-- All modes. -/
def all : List Mode := [.final, .preview]

/-- The name in documents. -/
def key : Mode → String
  | .final => "final"
  | .preview => "preview"

end Mode

/-- Whether light falls on the surface. -/
inductive Shading where
  | lit
  | unlit
  deriving DecidableEq, Repr, Inhabited

namespace Shading

/-- All shading models. -/
def all : List Shading := [.lit, .unlit]

/-- The name in documents. -/
def key : Shading → String
  | .lit => "lit"
  | .unlit => "unlit"

end Shading

/-- How the surface covers what is behind it. -/
inductive Blend where
  /-- Fully. -/
  | solid
  /-- Fully or not at all. -/
  | masked
  /-- In part. -/
  | translucent
  deriving DecidableEq, Repr, Inhabited

namespace Blend

/-- All ways to blend. -/
def all : List Blend := [.solid, .masked, .translucent]

/-- The name in documents. -/
def key : Blend → String
  | .solid => "opaque"
  | .masked => "masked"
  | .translucent => "translucent"

end Blend

/-- What a compilation is asked for. -/
structure Options where
  mode : Mode := .final
  shading : Shading := .lit
  blend : Blend := .solid
  description : String := ""
  /-- The source of a template to use in place of the usual one. -/
  template : Option String := none
  deriving DecidableEq, Repr, Inhabited

namespace Options

/-- Reads options; what is left out is as usual. -/
def read (j : Json) : Except Mismatch Options := j.readRecord "options" do
  let mode ← field "mode" (Json.readName Mode.all Mode.key) .final
  let shading ← field "shading_model" (Json.readName Shading.all Shading.key) .lit
  let blend ← field "blend_mode" (Json.readName Blend.all Blend.key) .solid
  let description ← field "description" Json.readString ""
  let template ← field "template" (Json.readOption Json.readString) none
  return { mode, shading, blend, description, template }

/-- Options in a document. -/
def write (o : Options) : Json := .record
  [("mode", some (.string o.mode.key)), ("shading_model", some (.string o.shading.key)),
    ("blend_mode", some (.string o.blend.key)), ("description", Json.nonEmpty o.description),
    ("template", o.template.map .string)]

end Options

end MaterialGraph
