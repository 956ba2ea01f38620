import MaterialGraph.Pass.Scope

/-!
# Resolving outputs

Resolving an output runs the plan of its node and remembers the outcome. What
the plan asks for is resolved in turn, with one level less to go: a chain of
outputs that need each other has at most `maxDepth` members. A value that is not
constant and more than a reference moves into a local variable, so that all who
need it share one computation.

## Main definitions

* `Pass.hoist` — values in local variables.
* `Pass.perform` — the answer to one request of a plan.
* `Pass.run` — a whole plan.
* `Pass.resolve` — an output.
-/

namespace MaterialGraph

/-- How many outputs may be in the course of being resolved. -/
def maxDepth : Nat := 128

namespace Pass

/-! ### Local variables -/

/-- Whether an expression stays where it is: it is constant, only names something,
or has a type that no variable can hold. -/
def staysInline (e : Expr) : Bool :=
  e.isConstant || Text.isReference e.code || e.type.isObject || e.type == .any

/-- The expression moved into a local variable, unless it stays where it is. -/
def hoist (env : Environment) (e : Expr) (s : Pass) : Expr × Pass :=
  if staysInline e then (e, s)
  else
    let statement := Statement.assign (env.types.name e.type) s.locals e.code
    ({ e with code := localName s.locals }, { s.emit statement with locals := s.locals + 1 })

/-- A local variable whose value a feature selects. -/
def select (env : Environment) (feature : Feature) (type : ShaderType) (on off : Expr)
    (s : Pass) : Expr × Pass :=
  let statement :=
    Statement.select (env.types.name type) s.locals feature.combo on.code off.code
  ({ type, code := localName s.locals }, { s.emit statement with locals := s.locals + 1 })

/-! ### Registration -/

/-- Registers a parameter for a node and gives its value. -/
def bindParameter (env : Environment) (spec : ParameterSpec) (node : NodeId) (s : Pass) :
    Except Fault Expr × Pass :=
  let (result, globals) := s.globals.addParameter env.types spec node
  (result.map Parameter.expr, { s with globals })

/-- The attribute that stands for a feature. All switches of a feature share the
attribute of the first one. -/
def bindToggle (env : Environment) (name : String) (initial : Bool) (s : Pass) :
    Except Fault Expr × Pass :=
  let identifier := Text.Identifier.screaming name
  if identifier.isEmpty then
    (.error (.message ("invalid feature name \"" ++ name ++ "\"")), s)
  else
    let (owner, toggles) := assignOwner s.globals.toggles identifier s.currentNode
    bindParameter env
      { name, type := .bool, initial := some (.bool initial), isAttribute := true } owner
      { s with globals := { s.globals with toggles } }

/-- A texture for the current node. A new texture with an image is compiled; if
that fails, it is white and a warning is reported. -/
def bindTexture (env : Environment) (spec : TextureSpec) (name : String) (fallback : Vec4)
    (s : Pass) : Except Fault Expr × Pass :=
  let node := s.currentNode
  match s.globals.addTexture env.types spec name fallback node with
  | (.error fault, globals) => (.error fault, { s with globals })
  | (.ok (t, isNew), globals) =>
    let s := { s with globals }
    if isNew && !spec.image.isEmpty then
      let s := { s with compiled := s.compiled ++ [spec] }
      match env.textures spec with
      | some asset =>
        (.ok t.expr, { s with globals := s.globals.updateTexture { t with asset := some asset } })
      | none =>
        let s := { s with globals := s.globals.updateTexture { t with fallback := .ones } }
        (.ok t.expr, s.push (.warning .assetCompilationFailure node
          ("failed to compile texture \"" ++ spec.image ++ "\"")))
    else (.ok t.expr, s)

/-! ### Requests -/

/-- A way to resolve sites. -/
abbrev Resolver := Site → Pass → Outcome × Pass

/-- The value along a wire, in the scope of the consumer unless the wire names
another. -/
def readWire (resolve : Resolver) (input : String) (wire : Wire) (s : Pass) : Outcome × Pass :=
  if wire.isConnected then
    let scope := if wire.path.isEmpty then s.scope else wire.path
    resolve ⟨scope, wire.node, wire.output, s.stage⟩ s
  else (.missingInput input, s)

/-- Another output of the node being resolved. -/
def readOwn (resolve : Resolver) (output : String) (s : Pass) : Outcome × Pass :=
  match s.stack with
  | [] => (.error "no node is being resolved", s)
  | site :: _ => resolve ⟨site.scope, site.node, output, s.stage⟩ s

/-- The first node that names an output of a document. -/
def outputNode? (g : Instance) (output : String) : Option NodeId :=
  (g.behaviors.find? fun (_, b) =>
    match b.role with
    | .subgraphOutput name _ => name == output
    | _ => false).map (·.1)

/-- An output of the document that the node being resolved calls. -/
def callOutput (env : Environment) (resolve : Resolver) (output : String) (s : Pass) :
    Except Fault Expr × Pass :=
  match s.stack with
  | [] => (.error (.message "no node is being resolved"), s)
  | site :: _ =>
    let scope := site.scope ++ [site.node]
    match s.follow env scope with
    | (.error fault, s) => (.error fault, s)
    | (.ok g, s) =>
      match outputNode? g output with
      | none => (.error (.unknownOutput output), s)
      | some node =>
        let (outcome, s) := resolve ⟨scope, node, valueOutput, s.stage⟩ s
        (outcome.toExpr output, s)

/-- The wire that a call binds to a name. -/
def boundWire? (g : Instance) (call : NodeId) (name : String) : Option Wire := do
  let b ← g.behavior? call
  let (_, wire) ← b.connections.find? (·.1 == name)
  if wire.isConnected then some wire else none

/-- The value that the call of the current document binds to a name, resolved where
the call stands. It is absent outside of calls and for names left open. -/
def readArgument (env : Environment) (resolve : Resolver) (name : String) (s : Pass) :
    Option Outcome × Pass :=
  match s.scope.getLast? with
  | none => (none, s)
  | some call =>
    let caller := s.scope.dropLast
    match s.follow env caller with
    | (.error _, s) => (none, s)
    | (.ok g, s) =>
      match boundWire? g call name with
      | none => (none, s)
      | some wire =>
        let inner := s.scope
        let (outcome, s) := readWire resolve name wire { s with scope := caller }
        (some outcome, { s with scope := inner })

/-- The answer to a request of the node being resolved. -/
def perform (env : Environment) (resolve : Resolver) : (c : Command) → Pass → c.Reply × Pass
  | .read input wire, s => s.readWire resolve input wire
  | .own output, s => s.readOwn resolve output
  | .call output, s => s.callOutput env resolve output
  | .argument name, s => s.readArgument env resolve name
  | .parameter spec, s => s.bindParameter env spec s.currentNode
  | .declare text, s =>
    let (isNew, globals) := s.globals.declare text
    (isNew, { s with globals })
  | .function source, s =>
    let (result, globals) := s.globals.addFunction source
    (result, { s with globals })
  | .texture spec name fallback, s => s.bindTexture env spec name fallback
  | .sampler state, s =>
    let (sampler, globals) := s.globals.addSampler env.types state
    (sampler.expr, { s with globals })
  | .feature name group, s =>
    let (result, globals) := s.globals.addFeature name group
    (result, { s with globals })
  | .toggle name initial, s => s.bindToggle env name initial
  | .select feature type on off, s => s.select env feature type on off
  | .warn message, s => ((), s.push (.warning .node s.currentNode message))
  | .reportMissing input, s =>
    ((), s.push (.error .missingInput s.currentNode (Fault.missingInput input).text))
  | .note remark, s => ((), { s with journal := s.journal ++ [remark] })

/-- A plan carried out request by request. -/
def run {α : Type} (env : Environment) (resolve : Resolver) :
    Plan α → Pass → Except Fault α × Pass
  | .done a, s => (.ok a, s)
  | .fail fault, s => (.error fault, s)
  | .ask c next, s =>
    let (reply, s) := s.perform env resolve c
    run env resolve (next reply) s

section Run

variable {α : Type} (env : Environment) (r : Resolver) (s : Pass)

@[simp] theorem run_done (a : α) : run env r (.done a) s = (.ok a, s) := rfl

@[simp] theorem run_fail (fault : Fault) :
    run env r (.fail fault : Plan α) s = (.error fault, s) := rfl

@[simp] theorem run_ask (c : Command) (next : c.Reply → Plan α) :
    run env r (.ask c next) s =
      run env r (next (s.perform env r c).1) (s.perform env r c).2 := rfl

end Run

/-! ### Sites -/

/-- The message about a cycle: the chain of nodes from the first time the site was
reached to the second. -/
def cycleChain (stack : List Site) (site : Site) : String :=
  let chain := stack.takeWhile (· != site) ++ (stack.dropWhile (· != site)).take 1
  " -> ".intercalate ((chain.reverse.map (·.node) ++ [site.node]).map NodeId.text)

/-- An output that needs itself. -/
def reportCycle (site : Site) (s : Pass) : Outcome × Pass :=
  let fault := Fault.cycle (cycleChain s.stack site)
  (.ofFault fault, s.push (.fatal .cycleDetected site.node fault.text))

/-- A chain of outputs that is too long. -/
def reportDepth (site : Site) (s : Pass) : Outcome × Pass :=
  (.error ("dependency chain too deep at " ++ site.node.text),
    s.push (.fatal .depthExceeded site.node
      ("dependency chain is deeper than " ++ toString maxDepth ++ " nodes")))

/-- A wire that leads nowhere, reported for the node that has it. -/
def reportDangling (message : String) (s : Pass) : Outcome × Pass :=
  (.missingInput message, s.push (.error .danglingReference s.currentNode message))

/-- What is found at a site: an outcome that is known at once, or a node to ask. -/
inductive Arrival where
  | settled (outcome : Outcome)
  | node (behavior : Behavior)

/-- Looks a site up: what is remembered of it, then its document, its node and the
errors of the node. -/
def arrive (env : Environment) (site : Site) (s : Pass) : Arrival × Pass :=
  match s.progress? site with
  | some (.finished outcome) => (.settled outcome, s)
  | some .started =>
    let (outcome, s) := s.reportCycle site
    (.settled outcome, s)
  | none =>
    match s.follow env site.scope with
    | (.error (.cycle chain), s) => (.settled (.ofFault (.cycle chain)), s)
    | (.error fault, s) =>
      let (outcome, s) := s.reportDangling
        ("reference to node " ++ site.node.text ++ " through an invalid subgraph path: " ++
          fault.text)
      (.settled outcome, s)
    | (.ok g, s) =>
      match g.state? site.node with
      | some (.broken message) => (.settled (.error message), s)
      | none =>
        let (outcome, s) := s.reportDangling (missingNodeMessage site.node)
        (.settled outcome, s)
      | some (.ready b) =>
        match b.errors with
        | message :: _ =>
          (.settled (.error message), s.remember site (.finished (.error message)))
        | [] => (.node b, s)

/-- The pass on its way into a node. -/
def enter (site : Site) (s : Pass) : Pass :=
  { s.remember site .started with stack := site :: s.stack, scope := site.scope }

/-- The outcome of a node's plan: a value in its place, or a fault reported. The
values of a material result are used once and stay where they are. -/
def conclude (env : Environment) (node : NodeId) (role : Role) (result : Except Fault Expr)
    (s : Pass) : Outcome × Pass :=
  match result with
  | .ok e =>
    if role = .materialRoot then (.valid e, s)
    else
      let (e, s) := s.hoist env e
      (.valid e, s)
  | .error fault => (.ofFault fault, s.pushFault node fault)

/-- The frame in which a node's plan is made. -/
def frame (env : Environment) (site : Site) : Frame where
  types := env.types
  mode := env.mode
  stage := site.stage
  scope := site.scope
  node := site.node

/-- Asks the node at a site for the output, and remembers the outcome. -/
def ask (env : Environment) (resolve : Resolver) (site : Site) (b : Behavior) (s : Pass) :
    Outcome × Pass :=
  let (stack, scope) := (s.stack, s.scope)
  let (result, s) := run env resolve (b.plan (frame env site) site.output) (s.enter site)
  let (outcome, s) := conclude env site.node b.role result { s with stack, scope }
  (outcome, s.remember site (.finished outcome))

/-- Resolves a site when `room` more sites may be started. -/
def resolve (env : Environment) : (room : Nat) → Resolver
  | 0, site, s =>
    match s.arrive env site with
    | (.settled outcome, s) => (outcome, s)
    | (.node _, s) => s.reportDepth site
  | room + 1, site, s =>
    match s.arrive env site with
    | (.settled outcome, s) => (outcome, s)
    | (.node b, s) => s.ask env (resolve env room) site b

/-- Resolves an output for a stage, from outside of all nodes. -/
def resolveFor (env : Environment) (stage : Stage) (scope : Scope) (node : NodeId)
    (output : String) (s : Pass) : Outcome × Pass :=
  let outer := s.stage
  let (outcome, s) := resolve env maxDepth ⟨scope, node, output, stage⟩ { s with stage }
  (outcome, { s with stage := outer })

end Pass

end MaterialGraph
