import MaterialGraph.Pass.State

/-!
# Documents in a pass

A document is made ready once: its nodes are built from their settings, and
everything that can be said without resolving an output is reported. A scope
leads from the root document through calls to the document of its last call. A
document that calls itself, directly or through others, is refused.
-/

namespace MaterialGraph.Pass

/-! ### Making a document ready -/

/-- The message about settings that cannot be read. -/
def settingsMessage (className : String) (m : Mismatch) : String :=
  "serialization error for " ++ className ++ ": Error(" ++ Mismatch.quote m.text ++
    ", line: 0, column: 0)"

/-- Reports what a node says about its own settings. -/
def addRemarks (s : Pass) (id : NodeId) (b : Behavior) : Pass :=
  let s := b.errors.foldl (fun s e => s.push (.error .validation id e)) s
  let s := b.warnings.foldl (fun s w => s.push (.warning .validation id w)) s
  b.metadata.foldl (fun s (key, value) => s.addMetadata key value) s

/-- Reports a node saved by a newer version of its class. -/
def checkVersion (s : Pass) (node : Node) (kind : NodeKind) : Pass :=
  if kind.version < node.version then
    s.push (.warning .futureVersion node.id
      (node.className ++ " version " ++ toString node.version.toNat ++
        " is newer than the supported version " ++ toString kind.version.toNat))
  else s

/-- The state of a node that cannot be made, with the reason reported. -/
def breakNode (s : Pass) (concern : Concern) (id : NodeId) (message : String) :
    NodeState × Pass :=
  (.broken message, s.push (.error concern id message))

/-- A node made from its settings. -/
def makeNode (env : Environment) (s : Pass) (node : Node) : NodeState × Pass :=
  match env.catalog.find? node.className with
  | none =>
    s.breakNode .unknownNode node.id ("unknown node class \"" ++ node.className ++ "\"")
  | some kind =>
    let s := s.checkVersion node kind
    match kind.build node.settings with
    | .error m => s.breakNode .invalidSettings node.id (settingsMessage node.className m)
    | .ok b => (.ready b, s.addRemarks node.id b)

/-- The nodes of a document, after those in `g`. The first node with an identifier
counts, later ones are reported. -/
def makeNodes (env : Environment) : Instance → List Node → Pass → Instance × Pass
  | g, [], s => (g, s)
  | g, node :: nodes, s =>
    if (g.state? node.id).isSome then
      makeNodes env g nodes
        (s.push (.fatal .duplicateName node.id ("duplicate node id " ++ node.id.text)))
    else
      let (state, s) := s.makeNode env node
      makeNodes env (g ++ [(node.id, state)]) nodes s

/-! ### Checking a document -/

/-- The message about a wire that leads to no node. -/
def missingNodeMessage (id : NodeId) : String := "reference to missing node " ++ id.text

/-- Reports the wires of a node that lead to no node of its document. -/
def checkWires (g : Instance) (id : NodeId) (b : Behavior) (s : Pass) : Pass :=
  b.connections.foldl
    (fun s (_, wire) =>
      if wire.isConnected && wire.path.isEmpty && (g.state? wire.node).isNone then
        s.push (.error .danglingReference id (missingNodeMessage wire.node))
      else s) s

/-- Reports a name that is used twice for inputs or outputs; `kind` says which. -/
def checkName (kind : String) (seen : List String) (id : NodeId) (name : String) (s : Pass) :
    List String × Pass :=
  if name ∈ seen then
    (seen, s.push (.fatal .duplicateName id
      ("duplicate subgraph " ++ kind ++ " \"" ++ name ++ "\"")))
  else (name :: seen, s)

/-- Checks nodes one after the other; `inputs` and `outputs` are the names in use. -/
def checkNodes (g : Instance) (inputs outputs : List String) :
    List (NodeId × Behavior) → Pass → Pass
  | [], s => s
  | (id, b) :: rest, s =>
    let s := s.checkWires g id b
    match b.role with
    | .subgraphInput name =>
      let (inputs, s) := s.checkName "input" inputs id name
      checkNodes g inputs outputs rest s
    | .subgraphOutput name _ =>
      let (outputs, s) := s.checkName "output" outputs id name
      checkNodes g inputs outputs rest s
    | _ => checkNodes g inputs outputs rest s

/-- The document of a path made ready, or as it was made ready before. -/
def prepare (env : Environment) (path : String) (d : Document) (s : Pass) : Instance × Pass :=
  match s.instances.find? (·.1 == path) with
  | some (_, g) => (g, s)
  | none =>
    let (g, s) := makeNodes env [] d.nodes s
    let s := checkNodes g [] [] g.behaviors s
    (g, { s with instances := (path, g) :: s.instances })

/-- The path that stands for the root document. -/
def rootPath : String := ""

/-- The instance of the document that is compiled. -/
def root (env : Environment) (s : Pass) : Instance × Pass := s.prepare env rootPath env.root

/-! ### Following a scope -/

/-- The document that a scope led to before. -/
def scope? (s : Pass) (scope : Scope) : Option Instance :=
  (s.scopes.find? (·.1 == scope)).map (·.2)

/-- The pass that knows where a scope leads. -/
def rememberScope (s : Pass) (scope : Scope) (g : Instance) : Pass :=
  { s with scopes := (scope, g) :: s.scopes.filter (·.1 != scope) }

/-- The document that calls lead to from `g`, itself reached by the calls `before`
through the documents `paths`. -/
def walk (env : Environment) (before : Scope) (paths : List String) (g : Instance) :
    Scope → Pass → Except Fault Instance × Pass
  | [], s => (.ok g, s)
  | call :: rest, s =>
    match (g.behavior? call).map Behavior.role with
    | some (.subgraphCall path) =>
      if path ∈ paths then
        let message := "recursive subgraph: " ++ " -> ".intercalate (paths ++ [path])
        (.error (.cycle message), s.push (.fatal .cycleDetected call message))
      else
        match env.library path with
        | none => (.error (.message ("missing subgraph \"" ++ path ++ "\"")), s)
        | some d =>
          let (g, s) := s.prepare env path d
          walk env (before ++ [call]) (paths ++ [path]) g rest
            (s.rememberScope (before ++ [call]) g)
    | some _ => (.error (.message ("node " ++ call.text ++ " is not a subgraph call")), s)
    | none => (.error (.message ("missing subgraph call node " ++ call.text)), s)

/-- The document that a scope leads to. -/
def follow (env : Environment) (scope : Scope) (s : Pass) : Except Fault Instance × Pass :=
  match s.scope? scope with
  | some g => (.ok g, s)
  | none =>
    let (g, s) := s.root env
    match walk env [] [] g scope s with
    | (.ok g, s) => (.ok g, s.rememberScope scope g)
    | (.error fault, s) => (.error fault, s)

end MaterialGraph.Pass
