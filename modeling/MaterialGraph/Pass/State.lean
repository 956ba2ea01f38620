import MaterialGraph.Catalog
import MaterialGraph.Diagnostic

/-!
# The state of a pass

A pass resolves outputs. It remembers what became of every output it was asked
for, by *site*: the scope, the node, the output and the stage. While an output is
being resolved its site is on the stack, the innermost one first.

## Main definitions

* `Site`, `Progress` — what is remembered, and how far it is.
* `Statement` — the statements of a stage.
* `Instance` — the nodes of a document, made from their settings.
* `Environment` — what a pass works with; it does not change.
* `Pass` — the state.

## Main results

* `Pass.progress?_remember` — remembering one site leaves the others alone.
-/

namespace MaterialGraph

/-! ### Sites -/

/-- An output asked for in a stage. -/
structure Site where
  /-- The calls that lead to the node. -/
  scope : Scope
  node : NodeId
  output : String
  /-- The stage that needs it. -/
  stage : Stage
  deriving DecidableEq, Repr

/-- How far an output is. -/
inductive Progress where
  /-- It is being resolved. -/
  | started
  /-- It is resolved. -/
  | finished (outcome : Outcome)
  deriving DecidableEq, Repr

/-! ### Statements -/

/-- The name of a local variable. -/
def localName (n : Nat) : String := "l_" ++ toString n

/-- A statement that declares a local variable. -/
inductive Statement where
  /-- A variable with its value. -/
  | assign (type : String) (index : Nat) (code : String)
  /-- A variable whose value a feature selects. -/
  | select (type : String) (index : Nat) (combo on off : String)
  deriving DecidableEq, Repr

/-- The lines of a statement. -/
def Statement.lines : Statement → List String
  | .assign type index code => [type ++ " " ++ localName index ++ " = " ++ code ++ ";"]
  | .select type index combo on off =>
    [type ++ " " ++ localName index ++ ";", "#if " ++ combo,
      "    " ++ localName index ++ " = " ++ on ++ ";", "#else",
      "    " ++ localName index ++ " = " ++ off ++ ";", "#endif"]

/-! ### Documents in a pass -/

/-- A node of a document in a pass. -/
inductive NodeState where
  /-- A node that can be asked. -/
  | ready (behavior : Behavior)
  /-- A node that could not be made, and why. -/
  | broken (message : String)

/-- The nodes of a document by their identifiers, in the order of the document. -/
abbrev Instance := List (NodeId × NodeState)

namespace Instance

/-- The state of the node with an identifier. -/
def state? (g : Instance) (id : NodeId) : Option NodeState :=
  (g.find? (·.1 == id)).map (·.2)

/-- The node with an identifier, if it can be asked. -/
def behavior? (g : Instance) (id : NodeId) : Option Behavior :=
  match g.state? id with
  | some (.ready b) => some b
  | _ => none

/-- The nodes that can be asked, in order. -/
def behaviors (g : Instance) : List (NodeId × Behavior) :=
  g.filterMap fun
    | (id, .ready b) => some (id, b)
    | (_, .broken _) => none

end Instance

/-! ### The pass -/

/-- What a pass works with. -/
structure Environment where
  types : TypeTable
  catalog : Catalog
  library : String → Option Document
  textures : TextureCompiler
  mode : Mode
  /-- The document that is compiled. -/
  root : Document

/-- The state of a pass. -/
structure Pass where
  /-- The documents that have been made ready, by their paths. -/
  instances : List (String × Instance) := []
  /-- The documents that scopes lead to. -/
  scopes : List (Scope × Instance) := []
  /-- What became of the outputs asked for, the latest first. -/
  memo : List (Site × Progress) := []
  /-- The outputs being resolved, the innermost first. -/
  stack : List Site := []
  /-- The calls that lead to the current document. -/
  scope : Scope := []
  stage : Stage := .pixel
  /-- The statements of the vertex stage. -/
  vertex : List Statement := []
  /-- The statements of the pixel stage. -/
  pixel : List Statement := []
  /-- The number of local variables declared so far. -/
  locals : Nat := 0
  globals : Globals := {}
  report : Report := {}
  /-- What the nodes added to the metadata. -/
  metadata : Dictionary (List String) := []
  /-- What was given to the texture compiler, in order. -/
  compiled : List TextureSpec := []
  /-- The remarks of nodes, in order. -/
  journal : List Json := []

namespace Pass

/-- What is known about a site. -/
def progress? (s : Pass) (site : Site) : Option Progress :=
  (s.memo.find? (·.1 == site)).map (·.2)

/-- The pass that knows how far a site is. -/
def remember (s : Pass) (site : Site) (p : Progress) : Pass :=
  { s with memo := (site, p) :: s.memo.filter (·.1 != site) }

/-- What is known after a site has been remembered. -/
@[simp] theorem progress?_remember (s : Pass) (site : Site) (p : Progress) (other : Site) :
    (s.remember site p).progress? other = if site = other then some p else s.progress? other := by
  by_cases h : site = other
  · subst h
    simp [progress?, remember]
  · have hf : (s.memo.filter (·.1 != site)).find? (·.1 == other) =
        s.memo.find? (·.1 == other) := by
      rw [List.find?_filter]
      refine congrArg (s.memo.find? ·) (funext fun e => ?_)
      by_cases he : e.1 = other
      · simp [he, Ne.symm h]
      · simp [he]
    simp [progress?, remember, h, hf]

/-- The pass with one more remark. -/
def push (s : Pass) (d : Diagnostic) : Pass := { s with report := s.report.push d }

/-- The pass with a fault of a node reported, unless it was reported where it arose. -/
def pushFault (s : Pass) (node : NodeId) (fault : Fault) : Pass :=
  match Diagnostic.ofFault? node fault with
  | some d => s.push d
  | none => s

/-- The node whose output is being resolved. -/
def currentNode (s : Pass) : NodeId :=
  match s.stack with
  | site :: _ => site.node
  | [] => .nil

/-- The pass with one more statement in the current stage. -/
def emit (s : Pass) (statement : Statement) : Pass :=
  match s.stage with
  | .vertex => { s with vertex := s.vertex ++ [statement] }
  | .pixel => { s with pixel := s.pixel ++ [statement] }

/-- The pass with a piece of metadata. -/
def addMetadata (s : Pass) (key value : String) : Pass :=
  let values := (s.metadata.get? key).getD []
  { s with metadata := s.metadata.insert key (insertText value values) }

end Pass

end MaterialGraph
