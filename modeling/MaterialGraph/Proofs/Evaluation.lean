import MaterialGraph.Proofs.Ownership

/-!
# Evaluation in bindings

What an output means can be said without a pass. A document is evaluated in *bindings*: a
call binds the inputs of the document it calls to its own inputs, which stand in the calling
document and are evaluated in the bindings of that. Nothing is remembered, and nothing is
moved into a variable. A document that calls itself, or an output that needs itself, has no
value however long one evaluates, so evaluation has fuel.

## Main results

* `Environment.evaluate_ready` — a node is evaluated by its plan.
* `Environment.document_placeAt` — the document of a place.
-/

namespace MaterialGraph

open Text

/-! ### Places -/

/-- What the inputs of a document are bound to. -/
inductive Binding where
  | outside
  /-- The inputs of a call. They stand in the calling document, in its own bindings. -/
  | inside (inputs : List (String × Wire)) (caller : Document) (outer : Binding)

/-- A document in its bindings. -/
structure Place where
  document : Document
  binding : Binding

namespace Binding

/-- What a name is bound to: a wire, and the place where it starts. -/
def closure? (name : String) : Binding → Option (Wire × Place)
  | .outside => none
  | .inside inputs caller outer =>
    (inputs.find? (·.1 == name)).bind fun (_, wire) =>
      if wire.isConnected then some (wire, ⟨caller, outer⟩) else none

/-- A scope that tells whether there is a call. Which one it is does not matter. -/
def scope : Binding → Scope
  | .outside => []
  | .inside _ _ _ => [⟨0⟩]

end Binding

/-! ### Evaluation -/

namespace Plan

variable {α : Type} (reply : (c : Command) → Option c.Reply)

/-- A plan whose requests are answered by `reply`, as far as it answers. -/
def answer : Plan α → Option (Except Fault α)
  | .done a => some (.ok a)
  | .fail fault => some (.error fault)
  | .ask c next => (reply c).bind fun r => (next r).answer

@[simp] theorem answer_done (a : α) : (done a).answer reply = some (.ok a) := rfl

@[simp] theorem answer_fail (fault : Fault) :
    (fail fault : Plan α).answer reply = some (.error fault) := rfl

@[simp] theorem answer_ask (c : Command) (next : c.Reply → Plan α) :
    (ask c next).answer reply = (reply c).bind fun r => (next r).answer reply := rfl

end Plan

/-- The outcome that a result leaves. -/
def Outcome.ofResult : Except Fault Expr → Outcome
  | .ok e => .valid e
  | .error fault => .ofFault fault

/-- A way to evaluate outputs at places. -/
abbrev Evaluator := Place → NodeId → String → Option Outcome

namespace Environment

/-- The output that a request of a node needs, and the place where it is evaluated. -/
def need? (env : Environment) (p : Place) (id : NodeId) (b : Behavior) :
    Command → Option (Place × NodeId × String)
  | .read _ wire => if wire.isConnected then some (p, wire.node, wire.output) else none
  | .own output => some (p, id, output)
  | .call output =>
    match b.role with
    | .subgraphCall path =>
      (env.library path).bind fun d =>
        (Pass.outputNode? (env.instanceOf d) output).map fun node =>
          (⟨d, .inside b.connections p.document p.binding⟩, node, valueOutput)
    | _ => none
  | .argument name =>
    (p.binding.closure? name).map fun (wire, place) => (place, wire.node, wire.output)
  | _ => none

/-- The answer to a request that needs no output. Names are never taken. -/
def answer (env : Environment) (id : NodeId) : (c : Command) → c.Reply
  | .read input _ => .missingInput input
  | .own output => .error output
  | .call output => .error (.unknownOutput output)
  | .argument _ => none
  | .parameter spec =>
    match spec.fault? env.types with
    | some fault => .error fault
    | none => .ok (spec.parameter env.types id).expr
  | .declare _ => true
  | .function source =>
    match declaredName? (String.ofList (trim source.toList)) with
    | some name => .ok name
    | none => .error (.message "function body has no valid declaration")
  | .texture spec name _ =>
    .ok { type := spec.type, code := env.types.globalStem spec.type ++ Identifier.ofText name }
  | .sampler _ => { type := .sampler, code := env.types.globalStem .sampler ++ "Sampler" }
  | .feature name group =>
    if (Identifier.screaming name).isEmpty then
      .error (.message ("invalid feature name \"" ++ name ++ "\""))
    else .ok { name := Identifier.ofText name, identifier := Identifier.screaming name, group }
  | .toggle name initial =>
    let toggle : ParameterSpec :=
      { name, type := .bool, initial := some (.bool initial), isAttribute := true }
    if (Identifier.screaming name).isEmpty then
      .error (.message ("invalid feature name \"" ++ name ++ "\""))
    else
      match toggle.fault? env.types with
      | some fault => .error fault
      | none => .ok (toggle.parameter env.types id).expr
  | .select feature type on off =>
    { type, code := feature.combo ++ " ? " ++ on.operand ++ " : " ++ off.operand }
  | .warn _ => ()
  | .reportMissing _ => ()
  | .note _ => ()

/-- The answer to a request of a node. -/
def reply (env : Environment) (eval : Evaluator) (p : Place) (id : NodeId) (b : Behavior)
    (c : Command) : Option c.Reply :=
  match env.need? p id b c with
  | some (place, node, output) => (eval place node output).bind c.deliver?
  | none => some (env.answer id c)

/-- The frame of a node at a place. -/
def frameAt (env : Environment) (stage : Stage) (p : Place) (id : NodeId) : Frame where
  types := env.types
  mode := env.mode
  stage := stage
  scope := p.binding.scope
  node := id

/-- The value of an output at a place. -/
def evaluate (env : Environment) (stage : Stage) : (fuel : Nat) → Evaluator
  | 0, _, _, _ => none
  | fuel + 1, p, id, output =>
    match (p.document.find? id).map env.stateOf with
    | none => some (.missingInput (Pass.missingNodeMessage id))
    | some (.broken message) => some (.error message)
    | some (.ready b) =>
      match b.errors with
      | message :: _ => some (.error message)
      | [] => ((b.plan (env.frameAt stage p id) output).answer
          (env.reply (evaluate env stage fuel) p id b)).map Outcome.ofResult

variable {env : Environment} {p : Place} {id : NodeId}

/-- A node that can be asked is evaluated by its plan. -/
theorem evaluate_ready {b : Behavior}
    (hb : (p.document.find? id).map env.stateOf = some (.ready b)) (he : b.errors = [])
    (stage : Stage) (fuel : Nat) (output : String) :
    env.evaluate stage (fuel + 1) p id output =
      ((b.plan (env.frameAt stage p id) output).answer
        (env.reply (env.evaluate stage fuel) p id b)).map Outcome.ofResult := by
  rw [evaluate, hb]
  dsimp only
  rw [he]

/-! ### Scopes as places -/

/-- The inputs of a node of a document. -/
def inputsOf (env : Environment) (d : Document) (id : NodeId) : List (String × Wire) :=
  (((env.instanceOf d).behavior? id).map Behavior.connections).getD []

/-- The place inside a call. -/
def enterCall (env : Environment) (p : Place) (call : NodeId) : Option Place :=
  (env.calledFrom? p.document call).map fun d =>
    ⟨d, .inside (env.inputsOf p.document call) p.document p.binding⟩

/-- The place that a scope leads to. -/
def placeAt (env : Environment) (scope : Scope) : Option Place :=
  scope.foldlM env.enterCall ⟨env.root, .outside⟩

@[simp] theorem placeAt_append (scope : Scope) (call : NodeId) :
    env.placeAt (scope ++ [call]) = (env.placeAt scope).bind (env.enterCall · call) := by
  unfold placeAt
  rw [List.foldlM_append]
  cases List.foldlM env.enterCall ⟨env.root, .outside⟩ scope with
  | none => rfl
  | some p => exact bind_pure (env.enterCall p call)

theorem document_placeAt (scope : Scope) :
    (env.placeAt scope).map Place.document = env.documentAt scope := by
  have hfold (p : Place) : (scope.foldlM env.enterCall p).map Place.document =
      scope.foldlM env.calledFrom? p.document := by
    induction scope generalizing p with
    | nil => rfl
    | cons call scope ih =>
      rw [List.foldlM_cons, List.foldlM_cons, enterCall]
      cases env.calledFrom? p.document call with
      | none => rfl
      | some d => exact ih _
  exact hfold ⟨env.root, .outside⟩

theorem documentAt_of_placeAt {scope : Scope} (h : env.placeAt scope = some p) :
    env.documentAt scope = some p.document := by
  rw [← document_placeAt, h]
  rfl

/-- A place is inside of a call if there is one in its scope. -/
theorem scope_isEmpty_of_placeAt {scope : Scope} (h : env.placeAt scope = some p) :
    p.binding.scope.isEmpty = scope.isEmpty := by
  rcases List.eq_nil_or_concat scope with rfl | ⟨before, call, rfl⟩
  · cases h
    rfl
  · rw [List.concat_eq_append, placeAt_append, Option.bind_eq_some_iff] at h
    obtain ⟨p₀, -, h⟩ := h
    obtain ⟨d, -, rfl⟩ := Option.map_eq_some_iff.mp h
    simp [Binding.scope]

/-- The output has a value, however much fuel there is beyond some amount. -/
def Evaluates (env : Environment) (stage : Stage) (p : Place) (id : NodeId) (output : String)
    (o : Outcome) : Prop :=
  ∃ enough, ∀ fuel, enough ≤ fuel → env.evaluate stage fuel p id output = some o

end Environment

end MaterialGraph
