import MaterialGraph.Channel
import MaterialGraph.Document
import MaterialGraph.Globals.Table

/-!
# What nodes do

A node provides an output by a *plan*: a finite program whose steps are requests
to the pass that runs it. A plan does not touch the state of the pass. It asks,
it is answered, and it ends with an expression or with a fault. So whatever
holds of every request holds of every node.

## Main definitions

* `Command`, `Command.Reply` — the requests and their answers.
* `Plan` — programs of requests, a monad with faults.
* `Plan.required`, `Plan.optional`, `Plan.orDefault` — the three ways to use an
  input.
* `Role`, `Frame`, `Behavior` — what the pass knows about a node.
-/

namespace MaterialGraph

/-! ### Requests -/

/-- A request to the pass. -/
inductive Command where
  /-- The value of an input, along its wire. -/
  | read (input : String) (wire : Wire)
  /-- Another output of the same node. -/
  | own (output : String)
  /-- An output of the document that the node calls. -/
  | call (output : String)
  /-- The value that the call of the current document binds to a name. -/
  | argument (name : String)
  | parameter (spec : ParameterSpec)
  /-- A declaration given as text; the answer tells whether it is new. -/
  | declare (text : String)
  /-- A function; the answer is its name. -/
  | function (source : String)
  | texture (spec : TextureSpec) (name : String) (fallback : Vec4)
  | sampler (state : SamplerState)
  | feature (name group : String)
  /-- The attribute that stands for a feature while the program runs. -/
  | toggle (name : String) (initial : Bool)
  /-- A value that a feature selects when the program is built. -/
  | select (feature : Feature) (type : ShaderType) (on off : Expr)
  /-- A warning about the node. -/
  | warn (message : String)
  /-- An error about an input without value. -/
  | reportMissing (input : String)
  /-- A remark for the journal of the pass. -/
  | note (remark : Json)

/-- The type of the answer to a request. -/
abbrev Command.Reply : Command → Type
  | .read _ _ => Outcome
  | .own _ => Outcome
  | .call _ => Except Fault Expr
  | .argument _ => Option Outcome
  | .parameter _ => Except Fault Expr
  | .declare _ => Bool
  | .function _ => Except Fault String
  | .texture _ _ _ => Except Fault Expr
  | .sampler _ => Expr
  | .feature _ _ => Except Fault Feature
  | .toggle _ _ => Except Fault Expr
  | .select _ _ _ _ => Expr
  | .warn _ => Unit
  | .reportMissing _ => Unit
  | .note _ => Unit

/-! ### Plans -/

/-- A program of requests that gives an `α` or a fault. -/
inductive Plan (α : Type) where
  /-- The result. -/
  | done (a : α)
  | fail (fault : Fault)
  /-- A request, and how to go on with its answer. -/
  | ask (c : Command) (next : c.Reply → Plan α)

namespace Plan

variable {α β : Type}

/-- One plan after another; a fault ends both. -/
def bind : Plan α → (α → Plan β) → Plan β
  | .done a, k => k a
  | .fail fault, _ => .fail fault
  | .ask c next, k => .ask c fun r => (next r).bind k

instance : Monad Plan where
  pure := .done
  bind := .bind

/-- The plan that makes one request and gives its answer. -/
def request (c : Command) : Plan c.Reply := .ask c .done

/-- A result that may be a fault. -/
def ofExcept : Except Fault α → Plan α
  | .ok a => .done a
  | .error fault => .fail fault

end Plan

/-- A constant as an expression. -/
def Constant.expr (types : TypeTable) (c : Constant) : Expr :=
  { type := c.type, code := c.literal types, isConstant := true }

/-- The call of a function with arguments. -/
def Expr.ofCall (name : String) (arguments : List Expr) (type : ShaderType) : Expr :=
  let code :=
    if arguments.isEmpty then name ++ "()"
    else name ++ "( " ++ ", ".intercalate (arguments.map (·.code)) ++ " )"
  { type, code }

namespace Plan

/-! ### Inputs -/

/-- The value of an input that must be connected. -/
def required (input : String) (wire : Wire) : Plan Expr := do
  ofExcept ((← request (.read input wire)).toExpr input)

/-- The value of an input that may be left open, but must not fail if connected. -/
def optional (input : String) (wire : Wire) : Plan (Option Expr) :=
  if wire.isConnected then do return some (← required input wire)
  else return none

/-- The value of an input, or a constant in its place. If a connected input has no
value, that is reported. -/
def orDefault (types : TypeTable) (input : String) (wire : Wire) (c : Constant) : Plan Expr := do
  match ← request (.read input wire) with
  | .valid e => return e
  | .missingInput _ =>
    if wire.isConnected then request (.reportMissing input)
    return c.expr types
  | .error _ => return c.expr types

/-- Another output of the same node. -/
def own (output : String) : Plan Expr := do
  ofExcept ((← request (.own output)).toExpr output)

end Plan

/-! ### Nodes as the pass sees them -/

/-- What a node is for, beside giving values. -/
inductive Role where
  /-- Nothing else. -/
  | expression
  /-- Its inputs are the channels of the material. -/
  | materialRoot
  /-- It stands for a value that calls of the document provide. -/
  | subgraphInput (name : String)
  /-- It names a result of the document, perhaps for a channel. -/
  | subgraphOutput (name : String) (channel : Option Channel)
  /-- It calls another document. -/
  | subgraphCall (path : String)
  deriving DecidableEq, Repr

/-- Where and for what a node's output is asked. -/
structure Frame where
  types : TypeTable
  mode : Mode
  /-- The stage that needs the output. -/
  stage : Stage
  scope : Scope
  node : NodeId

/-- A node with its settings read. -/
structure Behavior where
  /-- Its inputs and their wires. -/
  connections : List (String × Wire) := []
  /-- What is wrong with its settings; such a node gives no values. -/
  errors : List String := []
  /-- What is doubtful about its settings. -/
  warnings : List String := []
  /-- What it adds to the metadata of the program. -/
  metadata : List (String × String) := []
  role : Role := .expression
  /-- How it provides an output. -/
  plan : Frame → (output : String) → Plan Expr

/-- The description of a node class with settings of type `σ`. -/
structure NodeSpec (σ : Type) where
  name : String
  version : UInt32 := 1
  /-- The inputs it always has. -/
  inputs : List (String × ShaderType) := []
  /-- The outputs it always has. -/
  outputs : List (String × ShaderType) := []
  /-- The settings of a new node. -/
  initial : σ
  /-- The settings in a document, field by field. -/
  fields : RecordReader σ
  /-- Whether the settings cannot be given as a list. -/
  objectOnly : Bool := false
  /-- Settings in a document. -/
  write : σ → Json
  connections : σ → List (String × Wire) := fun _ => []
  errors : σ → List String := fun _ => []
  warnings : σ → List String := fun _ => []
  metadata : σ → List (String × String) := fun _ => []
  role : σ → Role := fun _ => .expression
  plan : σ → Frame → (output : String) → Plan Expr

namespace NodeSpec

variable {σ : Type}

/-- A node of the class. -/
def behavior (spec : NodeSpec σ) (s : σ) : Behavior where
  connections := spec.connections s
  errors := spec.errors s
  warnings := spec.warnings s
  metadata := spec.metadata s
  role := spec.role s
  plan := spec.plan s

/-- Reads settings, by name or as a list where the class allows it. -/
def read (spec : NodeSpec σ) (settings : Json) : Except Mismatch σ :=
  let expected := "struct " ++ spec.name ++ "Node"
  if spec.objectOnly then settings.readNamedRecord expected spec.fields
  else settings.readRecord expected spec.fields

/-- The settings of a saved node: a node without settings is as new. -/
def build (spec : NodeSpec σ) (settings : Json) : Except Mismatch σ :=
  if settings.isNull then .ok spec.initial else spec.read settings

end NodeSpec

/-- The output of a node that has one only. -/
def resultOutput : String := "result"

/-- The fault of a node asked for an output it does not have. -/
def Fault.noOutput (className output : String) : Fault :=
  .unknownOutput (className ++ "." ++ output)

/-- The plan of a node whose only output is `result`. -/
def Plan.onlyResult (className output : String) (plan : Plan Expr) : Plan Expr :=
  if output = resultOutput then plan else .fail (.noOutput className output)

end MaterialGraph
