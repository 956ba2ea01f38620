import MaterialGraph.Pass.Scope

/-!
# What is said about nodes

A node is made without a look at the pass: what becomes of it, what there is to say
about it and what it adds to the metadata depend on the catalog only. The pass takes it
up one by one, and so it does with the wires of the node that lead nowhere. Whatever is
to be known about these steps can be read off the lists.

## Main results

* `Pass.makeNode_eq`, `Pass.checkWires_eq` — a pass takes up just these.
* `Environment.exists_error` — a node that cannot be asked is reported as an error.
-/

namespace MaterialGraph

/-- A concern of nodes and their settings: not of chains of outputs, and not of wires. -/
def Concern.isRoutine : Concern → Bool
  | .cycleDetected => false
  | .depthExceeded => false
  | .danglingReference => false
  | _ => true

/-- The remark about a node that failed. -/
theorem Diagnostic.isRoutine_of_ofFault? {node : NodeId} {fault : Fault} {d : Diagnostic}
    (h : Diagnostic.ofFault? node fault = some d) : d.concern.isRoutine = true := by
  cases fault with
  | brokenInput input => cases h
  | cycle chain => cases h
  | _ => cases h; rfl

/-! ### What there is to say -/

/-- What a node has to say about its settings. -/
def Behavior.remarks (b : Behavior) (id : NodeId) : List Diagnostic :=
  b.errors.map (.error .validation id) ++ b.warnings.map (.warning .validation id)

/-- What is to be said about its wires: those that lead to no node of its document. -/
def Behavior.strays (b : Behavior) (g : Instance) (id : NodeId) : List Diagnostic :=
  (b.connections.filter fun entry =>
    entry.2.isConnected && entry.2.path.isEmpty && (g.state? entry.2.node).isNone).map
      fun entry => .error .danglingReference id (Pass.missingNodeMessage entry.2.node)

/-- The remark about a node saved by a newer version of its class. -/
def NodeKind.remarks (kind : NodeKind) (node : Node) : List Diagnostic :=
  if kind.version < node.version then
    [.warning .futureVersion node.id
      (node.className ++ " version " ++ toString node.version.toNat ++
        " is newer than the supported version " ++ toString kind.version.toNat)]
  else []

namespace Environment

/-- What becomes of a saved node. -/
def stateOf (env : Environment) (node : Node) : NodeState :=
  match env.catalog.find? node.className with
  | none => .broken ("unknown node class \"" ++ node.className ++ "\"")
  | some kind =>
    match kind.build node.settings with
    | .error m => .broken (Pass.settingsMessage node.className m)
    | .ok b => .ready b

/-- What a saved node adds to the metadata. -/
def pieces (env : Environment) (node : Node) : List (String × String) :=
  match env.stateOf node with
  | .ready b => b.metadata
  | .broken _ => []

/-- What there is to say about a saved node. -/
def remarks (env : Environment) (node : Node) : List Diagnostic :=
  match env.catalog.find? node.className with
  | none => [.error .unknownNode node.id ("unknown node class \"" ++ node.className ++ "\"")]
  | some kind =>
    kind.remarks node ++
      match kind.build node.settings with
      | .error m => [.error .invalidSettings node.id (Pass.settingsMessage node.className m)]
      | .ok b => b.remarks node.id

variable {env : Environment} {node : Node}

theorem stateOf_eq_ready {b : Behavior} (h : env.stateOf node = .ready b) :
    ∃ kind, env.catalog.find? node.className = some kind ∧ kind.build node.settings = .ok b := by
  unfold stateOf at h
  split at h
  · cases h
  · next kind hk =>
    split at h
    · cases h
    · next b' hb =>
      cases h
      exact ⟨kind, hk, hb⟩

/-- What is said about a node is about its class and its settings, and nothing fatal. -/
theorem mem_remarks {d : Diagnostic} (h : d ∈ env.remarks node) :
    d.node = node.id ∧ d.concern.isRoutine = true ∧ (d.severity == .fatal) = false := by
  unfold remarks at h
  split at h
  · rw [List.mem_singleton.mp h]
    exact ⟨rfl, rfl, rfl⟩
  · rcases List.mem_append.mp h with h | h
    · unfold NodeKind.remarks at h
      split at h
      · rw [List.mem_singleton.mp h]
        exact ⟨rfl, rfl, rfl⟩
      · cases h
    · split at h
      · rw [List.mem_singleton.mp h]
        exact ⟨rfl, rfl, rfl⟩
      · rcases List.mem_append.mp h with h | h
        · obtain ⟨_, -, rfl⟩ := List.mem_map.mp h
          exact ⟨rfl, rfl, rfl⟩
        · obtain ⟨_, -, rfl⟩ := List.mem_map.mp h
          exact ⟨rfl, rfl, rfl⟩

/-- A node that cannot be asked is reported as an error. -/
theorem exists_error (h : ∀ b, env.stateOf node = .ready b → b.errors ≠ []) :
    ∃ d ∈ env.remarks node, d.severity ≠ .warning := by
  unfold remarks
  unfold stateOf at h
  cases hkind : env.catalog.find? node.className with
  | none => exact ⟨_, List.mem_singleton_self _, by simp [Diagnostic.error]⟩
  | some kind =>
    rw [hkind] at h
    dsimp only at h ⊢
    cases hbuild : kind.build node.settings with
    | error m =>
      exact ⟨_, List.mem_append_right _ (List.mem_singleton_self _), by simp [Diagnostic.error]⟩
    | ok b =>
      rw [hbuild] at h
      obtain ⟨e, he⟩ := List.exists_mem_of_ne_nil _ (h b rfl)
      have hmem : Diagnostic.error .validation node.id e ∈ b.remarks node.id :=
        List.mem_append_left _ (List.mem_map_of_mem he)
      exact ⟨_, List.mem_append_right _ hmem, by simp [Diagnostic.error]⟩

end Environment

namespace Pass

variable {env : Environment}

/-- The pass with many pieces of metadata. -/
def addAll (s : Pass) (entries : List (String × String)) : Pass :=
  entries.foldl (fun s entry => s.addMetadata entry.1 entry.2) s

theorem report_addAll (entries : List (String × String)) : ∀ s : Pass,
    (s.addAll entries).report = s.report := by
  induction entries with
  | nil => exact fun s => rfl
  | cons entry entries ih => exact fun s => ih (s.addMetadata entry.1 entry.2)

theorem checkVersion_eq (s : Pass) (node : Node) (kind : NodeKind) :
    s.checkVersion node kind = (kind.remarks node).foldl push s := by
  unfold checkVersion NodeKind.remarks
  split
  · rfl
  · rfl

theorem addRemarks_eq (s : Pass) (id : NodeId) (b : Behavior) :
    s.addRemarks id b = ((b.remarks id).foldl push s).addAll b.metadata := by
  unfold addRemarks Behavior.remarks
  rw [List.foldl_append, List.foldl_map, List.foldl_map]
  rfl

/-- **All that comes of making a node.** -/
theorem makeNode_eq (s : Pass) (node : Node) :
    s.makeNode env node =
      (env.stateOf node, ((env.remarks node).foldl push s).addAll (env.pieces node)) := by
  unfold makeNode Environment.pieces Environment.remarks Environment.stateOf
  cases env.catalog.find? node.className with
  | none => rfl
  | some kind =>
    dsimp only
    rw [checkVersion_eq, List.foldl_append]
    cases kind.build node.settings with
    | error m => rfl
    | ok b =>
      dsimp only
      rw [addRemarks_eq]

/-- **All that comes of checking wires.** -/
theorem checkWires_eq (g : Instance) (id : NodeId) (b : Behavior) (s : Pass) :
    s.checkWires g id b = (b.strays g id).foldl push s := by
  unfold checkWires Behavior.strays
  rw [List.foldl_map, List.foldl_filter]

end Pass

end MaterialGraph
