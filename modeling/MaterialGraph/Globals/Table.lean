import MaterialGraph.Globals.Parameter
import MaterialGraph.Globals.Sampler

/-!
# The globals of a program

All that a pass has registered, each table in the order of first registration.
Registering the same thing again gives what is there already. A name that is
taken by something else is a fault.

## Main definitions

* `Feature`, `Function` — static switches and free functions.
* `Globals` — the tables.
* `Globals.declare`, `Globals.addParameter`, `Globals.addSampler`,
  `Globals.addTexture`, `Globals.addFeature`, `Globals.addFunction` —
  registration. Each gives its result together with the new tables.
* `Globals.featuresBlock`, `Globals.commonBlock` — the tables as program text.
-/

namespace MaterialGraph

open Text

/-! ### Features and functions -/

/-- A feature that a material can turn on when its program is built. -/
structure Feature where
  /-- Its name as an identifier. -/
  name : String
  /-- Its name in capitals. -/
  identifier : String
  /-- The group of features it belongs to. -/
  group : String
  deriving DecidableEq, Repr

namespace Feature

/-- The name that is declared. -/
def feature (f : Feature) : String := "F_" ++ f.identifier

/-- The name that program text tests. -/
def combo (f : Feature) : String := "S_" ++ f.identifier

/-- The line that declares a feature. -/
def declaration (f : Feature) : String :=
  "Feature( " ++ f.feature ++ ", 0..1, \"" ++
    (if f.group.isEmpty then "Material" else f.group) ++ "\" );"

/-- The declaration of what program text tests. -/
def comboDeclaration (f : Feature) : String :=
  "StaticCombo( " ++ f.combo ++ ", " ++ f.feature ++ ", Sys( ALL ) );"

/-- A feature in an answer. -/
def write (f : Feature) : Json := .record
  [("name", some (.string f.name)), ("feature", some (.string f.feature)),
    ("combo", some (.string f.combo)), ("group", some (.string f.group))]

end Feature

/-- A free function of the program. -/
structure Function where
  /-- The name it declares. -/
  name : String
  body : String
  deriving DecidableEq, Repr

/-! ### The tables -/

/-- Everything that has been registered. -/
structure Globals where
  /-- Declarations given as text. -/
  declarations : List String := []
  /-- Parameters, each with a global of its own. -/
  parameters : List Parameter := []
  /-- Which node owns a parameter's name. -/
  parameterNames : List (String × NodeId) := []
  /-- Which node owns the attribute that stands for a feature. -/
  toggles : List (String × NodeId) := []
  /-- Samplers, each with a state of its own. -/
  samplers : List Sampler := []
  /-- Textures, each made from something else. -/
  textures : List Texture := []
  /-- Features, each with an identifier of its own. -/
  features : List Feature := []
  /-- Functions, each with a name of its own. -/
  functions : List Function := []
  deriving DecidableEq, Repr, Inhabited

/-- The owner of a key, and the owners once `node` has asked for it: the first to ask
owns it. -/
def assignOwner (owners : List (String × NodeId)) (key : String) (node : NodeId) :
    NodeId × List (String × NodeId) :=
  match owners.find? (·.1 == key) with
  | some (_, owner) => (owner, owners)
  | none => (node, owners ++ [(key, node)])

namespace Globals

/-! ### Registration -/

/-- Registers a declaration given as text; true if it is new. -/
def declare (g : Globals) (text : String) : Bool × Globals :=
  if text ∈ g.declarations then (false, g)
  else (true, { g with declarations := g.declarations ++ [text] })

/-- Why a type cannot be a parameter. -/
def exposureFault? (types : TypeTable) (spec : ParameterSpec) : Option Fault :=
  let row := types.row spec.type
  if spec.isAttribute && !row.bindable then
    some (.typeMismatch (spec.type.text ++ " cannot be a render attribute"))
  else if !spec.isAttribute && !row.editable then
    some (.typeMismatch (spec.type.text ++ " cannot be exposed to the material editor"))
  else none

/-- Registers a parameter for a node. A name belongs to the first node that asks
for it, whatever the type. -/
def addParameter (types : TypeTable) (spec : ParameterSpec) (node : NodeId) (g : Globals) :
    Except Fault Parameter × Globals :=
  match exposureFault? types spec with
  | some fault => (.error fault, g)
  | none =>
    let name := Identifier.ofText spec.name
    if name.isEmpty then
      (.error (.message ("invalid parameter name \"" ++ spec.name ++ "\"")), g)
    else
      let (owner, names) := assignOwner g.parameterNames name node
      let g := { g with parameterNames := names }
      if owner ≠ node then (.error (.duplicateName spec.name), g)
      else
        let global := types.globalStem spec.type ++ name
        match g.parameters.find? (·.global == global) with
        | some p => if p.node ≠ node then (.error (.duplicateName spec.name), g) else (.ok p, g)
        | none =>
          let p : Parameter :=
            { name, global, type := spec.type, initial := spec.initial, range := spec.range,
              isAttribute := spec.isAttribute, hint := spec.hint, node }
          (.ok p, { g with parameters := g.parameters ++ [p] })

/-- Registers a sampler; its global is numbered. -/
def addSampler (types : TypeTable) (state : SamplerState) (g : Globals) : Sampler × Globals :=
  match g.samplers.find? (·.state == state) with
  | some s => (s, g)
  | none =>
    let s : Sampler :=
      { global := types.globalStem .sampler ++ "Sampler" ++ toString g.samplers.length, state }
    (s, { g with samplers := g.samplers ++ [s] })

/-- Registers a texture for a node; the flag tells whether it is new. A texture
without a usable name is numbered. -/
def addTexture (types : TypeTable) (spec : TextureSpec) (name : String) (fallback : Vec4)
    (node : NodeId) (g : Globals) : Except Fault (Texture × Bool) × Globals :=
  match g.textures.find? (·.spec == spec) with
  | some t => (.ok (t, false), g)
  | none =>
    let given := Identifier.ofText name
    let name := if given.isEmpty then "Texture" ++ toString g.textures.length else given
    let global := types.globalStem spec.type ++ name
    if g.textures.any (·.global == global) then (.error (.duplicateName name), g)
    else
      let t : Texture := { name, global, spec, asset := none, fallback, node }
      (.ok (t, true), { g with textures := g.textures ++ [t] })

/-- The tables with a texture replaced by a later state of it. -/
def updateTexture (g : Globals) (t : Texture) : Globals :=
  { g with textures := g.textures.map fun u => if u.spec = t.spec then t else u }

/-- Registers a feature and the declaration of what program text tests. -/
def addFeature (name group : String) (g : Globals) : Except Fault Feature × Globals :=
  let identifier := Identifier.screaming name
  if identifier.isEmpty then
    (.error (.message ("invalid feature name \"" ++ name ++ "\"")), g)
  else
    let (f, g) := match g.features.find? (·.identifier == identifier) with
      | some f => (f, g)
      | none =>
        let f : Feature := { name := Identifier.ofText name, identifier, group }
        (f, { g with features := g.features ++ [f] })
    (.ok f, (g.declare f.comboDeclaration).2)

/-- Registers a function by its source text and gives its name. One name cannot
have two texts. -/
def addFunction (source : String) (g : Globals) : Except Fault String × Globals :=
  let body := String.ofList (trim source.toList)
  match declaredName? body with
  | none => (.error (.message "function body has no valid declaration"), g)
  | some name =>
    match g.functions.find? (·.name == name) with
    | some f => if f.body = body then (.ok name, g) else (.error (.duplicateName name), g)
    | none => (.ok name, { g with functions := g.functions ++ [{ name, body }] })

/-! ### Program text -/

/-- How far declarations are moved to the right. -/
def margin : String := "    "

/-- The declarations of the features. -/
def featuresBlock (g : Globals) : String := indentLines margin (g.features.map Feature.declaration)

/-- The lines that declare everything but functions. -/
def declarationLines (types : TypeTable) (g : Globals) : List String :=
  g.declarations ++ g.parameters.map (·.declaration types) ++
    g.samplers.map (·.declaration types) ++ g.textures.map (·.declaration types)

/-- The text of a function. -/
def functionBlock (f : Function) : String :=
  indentLines margin ((lines f.body.toList).map String.ofList)

/-- All declarations, with the functions at the end and a blank line before each
unless it comes first. -/
def commonBlock (types : TypeTable) (g : Globals) : String :=
  g.functions.foldl
    (fun block f => (if block.isEmpty then block else block ++ "\n\n") ++ functionBlock f)
    (indentLines margin (g.declarationLines types))

end Globals

end MaterialGraph
