import MaterialGraph.Pass.Resolve
import MaterialGraph.Program

/-!
# Compiling documents

A material is compiled from its first result node, one channel after the other;
a subgraph on its own is compiled from those of its outputs that name a channel.
A preview resolves one output and shows it as a colour.
-/

namespace MaterialGraph

/-! ### Compilers -/

/-- What compilations share. -/
structure Compiler where
  types : TypeTable := .builtin
  catalog : Catalog := .builtin
  /-- The documents that can be called, by their paths. -/
  library : String → Option Document := fun _ => none
  textures : TextureCompiler := .passThrough

/-- Why a document cannot be compiled. -/
inductive Rejection where
  | noMaterialResult
  /-- A subgraph has no output that names a channel. -/
  | noChannelOutput
  /-- The output to show is not given. -/
  | disconnectedTarget
  | unknownTarget (node : NodeId)
  | template (e : Template.Error)
  deriving DecidableEq, Repr

/-- What a rejection says. -/
def Rejection.message : Rejection → String
  | .noMaterialResult => "graph has no MaterialResult node"
  | .noChannelOutput => "graph has no channel tagged SubgraphOutput node"
  | .disconnectedTarget => "preview target is not connected"
  | .unknownTarget node => "unknown preview target node: " ++ node.text
  | .template e => "template error: " ++ e.message

/-- The template that the options give, or the usual one. -/
def Options.templateOr (o : Options) (usual : Template) : Except Rejection Template :=
  match o.template with
  | none => .ok usual
  | some source =>
    match Template.parse source with
    | .ok t => .ok t
    | .error e => .error (.template e)

/-- The declaration that a kind of blending needs. -/
def Blend.declaration? : Blend → Option String
  | .solid => none
  | .masked => some "#define S_ALPHA_TEST 1"
  | .translucent => some "#define S_TRANSLUCENT 1"

namespace Compiler

/-- What a pass over a document works with. -/
def environment (c : Compiler) (mode : Mode) (root : Document) : Environment where
  types := c.types
  catalog := c.catalog
  library := c.library
  textures := c.textures
  mode := mode
  root := root

end Compiler

namespace Pass

/-! ### The channels of a material -/

/-- The result nodes of a material. -/
def resultNodes (g : Instance) : List (NodeId × Behavior) :=
  g.behaviors.filter (·.2.role = .materialRoot)

/-- Reports the result nodes after the first. -/
def reportFurther (nodes : List (NodeId × Behavior)) (s : Pass) : Pass :=
  nodes.foldl
    (fun s (id, _) =>
      s.push (.warning .validation id "additional MaterialResult node is ignored")) s

/-- Resolves the connected channels of a result node. A channel without a value is
not written. -/
def writeChannels (env : Environment) (node : NodeId) :
    List (String × Wire) → Pass → List Write × Pass
  | [], s => ([], s)
  | (input, wire) :: rest, s =>
    match Channel.ofKey? input with
    | some channel =>
      if wire.isConnected then
        let (outcome, s) := s.resolveFor env channel.stage [] node channel.key
        let (ws, s) := writeChannels env node rest s
        match outcome with
        | .valid value => (⟨channel, value⟩ :: ws, s)
        | _ => (ws, s)
      else writeChannels env node rest s
    | none => writeChannels env node rest s

/-- The channels that a material writes. -/
def materialWrites (env : Environment) (s : Pass) : Except Rejection (List Write × Pass) :=
  let (g, s) := s.root env
  match resultNodes g with
  | [] => .error .noMaterialResult
  | (node, b) :: further =>
    .ok (writeChannels env node b.connections (s.reportFurther further))

/-! ### The channels of a subgraph -/

/-- The outputs of a document that name a channel, each channel once; further
outputs of a channel are reported. `taken` are the channels in use. -/
def channelOutputs (taken : List Channel) :
    List (NodeId × Behavior) → Pass → List (NodeId × Channel) × Pass
  | [], s => ([], s)
  | (id, b) :: rest, s =>
    match b.role with
    | .subgraphOutput _ (some channel) =>
      if channel ∈ taken then
        channelOutputs taken rest
          (s.push (.error .duplicateChannel id
            (channel.fieldName ++ " is already provided by another output")))
      else
        let (outputs, s) := channelOutputs (channel :: taken) rest s
        ((id, channel) :: outputs, s)
    | _ => channelOutputs taken rest s

/-- Resolves outputs for their channels. -/
def writeOutputs (env : Environment) : List (NodeId × Channel) → Pass → List Write × Pass
  | [], s => ([], s)
  | (id, channel) :: rest, s =>
    match s.resolveFor env channel.stage [] id valueOutput with
    | (.valid e, s) =>
      match e.castTo env.types channel.type with
      | .ok value =>
        let (ws, s) := writeOutputs env rest s
        (⟨channel, value⟩ :: ws, s)
      | .error fault => writeOutputs env rest (s.pushFault id fault)
    | (_, s) => writeOutputs env rest s

/-- The channels that a subgraph on its own writes. -/
def subgraphWrites (env : Environment) (s : Pass) : Except Rejection (List Write × Pass) :=
  let (g, s) := s.root env
  match channelOutputs [] g.behaviors s with
  | ([], _) => .error .noChannelOutput
  | (outputs, s) => .ok (writeOutputs env outputs s)

end Pass

/-! ### Colours for display -/

/-- A value shown as a colour: a scalar in grey, a vector with its missing
components filled in. -/
def displayColor (types : TypeTable) (e : Expr) : Except Fault String :=
  let color (content : String) : String := types.name .vector4 ++ "( " ++ content ++ " )"
  match e.components with
  | some 1 =>
    let x := match e.type with
      | .int | .bool => "(float)" ++ e.operand
      | _ => e.code
    .ok (color (x ++ ", " ++ x ++ ", " ++ x ++ ", 1"))
  | some 2 => .ok (color (e.code ++ ", 0, 1"))
  | some 3 => .ok (color (e.code ++ ", 1"))
  | some 4 => .ok e.code
  | _ => .error (.castTo e.type .vector4)

/-- The colour shown for a value that there is not. -/
def noColor : String := "float4( 1, 0, 1, 1 )"

/-! ### Compilations -/

namespace Compiler

/-- A pass with the declaration that the kind of blending needs. -/
def firstPass (blend : Blend) : Pass :=
  match blend.declaration? with
  | none => {}
  | some text => { globals := { declarations := [text] } }

/-- The draft of a material, or of a subgraph on its own. -/
def materialDraft (c : Compiler) (d : Document) (o : Options) : Except Rejection Draft := do
  let env := c.environment o.mode d
  let s := firstPass o.blend
  let (ws, pass) ← if d.isSubgraph then s.subgraphWrites env else s.materialWrites env
  return {
    purpose := .material
    pass
    vertexEnd := writeLines .vertex ws
    pixelEnd := writeLines .pixel ws ++ [o.shading.line] }

/-- Compiles a material, or a subgraph on its own. -/
def compile (c : Compiler) (d : Document) (o : Options) : Except Rejection Compilation := do
  let t ← o.templateOr .material
  let draft ← c.materialDraft d o
  return draft.compilation c.types o t

/-- What a preview writes: the value of its target, as a colour. -/
def previewDraft (c : Compiler) (d : Document) (target : Wire) : Draft :=
  let env := c.environment .preview d
  let (_, s) := Pass.root env {}
  let (outcome, s) := s.resolveFor env .pixel target.path target.node target.output
  let (color, pass) := match outcome with
    | .valid e =>
      match displayColor c.types e with
      | .ok code => (code, s)
      | .error fault => (noColor, s.push (.error .invalidCast target.node fault.text))
    | _ => (noColor, s)
  { purpose := .preview, pass, pixelEnd := ["return " ++ color ++ ";"] }

/-- Compiles what one output needs and shows it as a colour. -/
def preview (c : Compiler) (d : Document) (o : Options) (target : Wire) :
    Except Rejection Compilation := do
  if !target.isConnected then throw .disconnectedTarget
  if target.path.isEmpty && (d.find? target.node).isNone then throw (.unknownTarget target.node)
  let t ← o.templateOr .preview
  return (c.previewDraft d target).compilation c.types o t

end Compiler

end MaterialGraph
