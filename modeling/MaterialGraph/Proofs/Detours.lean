import MaterialGraph.Proofs.Routes
import MaterialGraph.Proofs.Wiring

/-!
# Detours

A reroute passes on the value of its input. If some inputs that carry a wire are led through a
new reroute of that wire instead, the same outputs are resolved, with a stop at the reroute on
the way. This module compares the documents: those without the reroute are made ready like those
with it, and a node has the same plan in both, along wires that may lead to the reroute.

## Main results

* `Detour.makes` — the documents are made ready alike.
* `Detour.states_of_docs` — nodes with the same identifier stand for each other.
* `Detour.stop_of_host` — the reroute stands where it has been put.
-/

namespace MaterialGraph

open Pass

/-! ### Documents with a reroute -/

/-- The wire `x` as it is, or led through the reroute `id` of the wire `w`. -/
def Wire.Through (w : Wire) (id : NodeId) (x x' : Wire) : Prop :=
  x' = x ∨ x = w ∧ x' = { node := id, output := resultOutput }

/-- A saved node as it is, or with inputs that carry the wire `w` led through the reroute `id`. -/
def Node.Through (w : Wire) (id : NodeId) (node node' : Node) : Prop :=
  node' = node ∨ ∃ settings c s s', node' = { node with settings } ∧
    node.built? = some ⟨c, s⟩ ∧ node'.built? = some ⟨c, s'⟩ ∧ c.Moved (w.Through id) s s'

/-- The document `d'` is `d` with the reroute `r` of the wire `w` put in somewhere, and inputs that
carry `w` led through it. -/
structure Document.Rerouted (w : Wire) (r : Node) (d d' : Document) : Prop where
  /-- The new node is a reroute of the wire. -/
  built : r.built? = some ⟨.reroute, { input := w }⟩
  /-- It is put in somewhere, and inputs are led through it. -/
  nodes : ∃ before after, d'.nodes = before ++ r :: after ∧
    List.Forall₂ (Node.Through w r.id) d.nodes (before ++ after)
  isSubgraph : d'.isSubgraph = d.isSubgraph

/-- The node that provides the value of a wire in a document. -/
def Environment.source? (env : Environment) (d : Document) (w : Wire) : Option Node :=
  (if w.path.isEmpty then some d else env.documentAt w.path).bind (·.find? w.node)

/-- The document `d` has its place in one environment where `d'` has it in the other. -/
def Environment.Faces (env env' : Environment) (d d' : Document) : Prop :=
  d = env.root ∧ d' = env'.root ∨ ∃ path, env.library path = some d ∧ env'.library path = some d'

theorem Environment.Faces.inReach {env env' : Environment} {d d' : Document}
    (h : env.Faces env' d d') : env.InReach d :=
  h.imp And.left fun ⟨path, hd, _⟩ => ⟨path, hd⟩

/-- Two environments that differ in a reroute. -/
structure Detour where
  left : Environment
  right : Environment
  wire : Wire
  stop : Node
  builtin : left.catalog = .builtin
  catalog : right.catalog = left.catalog
  types : right.types = left.types
  textures : right.textures = left.textures
  mode : right.mode = left.mode
  /-- The root documents differ in the reroute at most. -/
  root : right.root = left.root ∨ left.root.Rerouted wire stop right.root
  /-- So do the documents that can be called. -/
  library : ∀ path, Option.Rel (fun d d' => d' = d ∨ d.Rerouted wire stop d') (left.library path)
    (right.library path)
  connected : wire.isConnected = true
  named : stop.id.isNil = false
  /-- It is the identifier of no other node. -/
  fresh : ∀ d, left.InReach d → ∀ node ∈ d.nodes, node.id ≠ stop.id
  /-- No wire leads to it. -/
  unreferenced : ∀ d, left.InReach d → ∀ node ∈ d.nodes, ∀ entry ∈ node.wires,
    ¬entry.2.RefersTo stop.id
  /-- Nor does the wire itself. -/
  outward : ¬wire.RefersTo stop.id
  /-- The wire does not come from the result of a material. -/
  source : ∀ d d', left.Faces right d d' → d.Rerouted wire stop d' → ∀ node,
    left.source? d wire = some node → node.className ≠ NodeClass.materialResult.name

namespace Detour

variable {d d' : Document} {node : Node}

variable (D : Detour)

/-- A wire as it is, or led through the reroute. -/
def Through : Wire → Wire → Prop := D.wire.Through D.stop.id

/-- The wire to the reroute. -/
def turn : Wire := { node := D.stop.id, output := resultOutput }

/-- Documents that differ in the reroute at most. -/
def Docs (d d' : Document) : Prop :=
  D.left.Faces D.right d d' ∧ (d' = d ∨ d.Rerouted D.wire D.stop d')

theorem through_isConnected {x x' : Wire} (h : D.Through x x') :
    x'.isConnected = x.isConnected := by
  rcases h with rfl | ⟨rfl, rfl⟩
  · rfl
  · rw [D.connected]
    unfold Wire.isConnected
    rw [D.named]
    rfl

/-- Both sides, with what passes over them have in common. -/
def mirror : Mirror where
  left := D.left
  right := D.right
  names id := id ≠ D.stop.id
  alike b b' := ∃ (c : NodeClass) (s s' : c.Settings), b = c.spec.behavior s ∧
    b' = c.spec.behavior s' ∧ c.Moved D.Through s s' ∧
      ∀ entry ∈ c.spec.connections s, ¬entry.2.RefersTo D.stop.id
  reports r r' := r'.hasFatal = r.hasFatal
  remarks m m' := m' = m
  role := by
    rintro _ _ ⟨c, s, s', rfl, rfl, hmoved, -⟩
    exact (hmoved.same D.through_isConnected).2.2.2
  blank := rfl
  bare := rfl
  push := @Report.hasFatal_push_congr
  add := @addMetadata_congr

variable {D}

/-- The wires of a node in reach do not lead to the reroute. -/
theorem clean (hd : D.left.InReach d) (hnode : node ∈ d.nodes) {c : NodeClass} {s : c.Settings}
    (hs : node.built? = some ⟨c, s⟩) :
    ∀ entry ∈ c.spec.connections s, ¬entry.2.RefersTo D.stop.id := by
  intro entry hentry
  refine D.unreferenced d hd node hnode entry ?_
  unfold Node.wires
  rw [hs]
  exact hentry

theorem alike_refl (hd : D.left.InReach d) (hnode : node ∈ d.nodes) {b : Behavior}
    (hb : D.left.stateOf node = .ready b) : D.mirror.alike b b := by
  obtain ⟨c, s, hs, rfl⟩ := Environment.stateOf_builtin D.builtin hb
  exact ⟨c, s, s, rfl, rfl, .refl (fun x => .inl rfl) c s, clean hd hnode hs⟩

/-- A node with inputs led through the reroute is made like the one without. -/
theorem nodes_of_through (hd : D.left.InReach d) {node' : Node} (hnode : node ∈ d.nodes)
    (h : node.Through D.wire D.stop.id node') :
    D.mirror.Nodes node node' := by
  have hname : D.mirror.names node.id := D.fresh d hd node hnode
  rcases h with rfl | ⟨settings, c, s, s', rfl, hs, hs', hmoved⟩
  · exact .same D.catalog hname fun b hb => alike_refl hd hnode hb
  · have hright : D.right.catalog = .builtin := D.catalog.trans D.builtin
    obtain ⟨herrors, hwarnings, hmetadata, -⟩ := hmoved.same D.through_isConnected
    refine ⟨rfl, hname, ?_, fun p t h => Mirror.makeNode_remarked ?_ ?_ h⟩
    · show D.mirror.States (D.left.stateOf node) (D.right.stateOf { node with settings })
      rw [Environment.stateOf_of_built? D.builtin hs, Environment.stateOf_of_built? hright hs']
      exact .ready ⟨c, s, s', rfl, rfl, hmoved, clean hd hnode hs⟩
    · show D.right.remarks { node with settings } = D.left.remarks node
      rw [Environment.remarks_of_built? D.builtin hs, Environment.remarks_of_built? hright hs']
      unfold Behavior.remarks NodeSpec.behavior
      rw [herrors, hwarnings]
      rfl
    · show D.right.pieces { node with settings } = D.left.pieces node
      unfold Environment.pieces
      rw [Environment.stateOf_of_built? D.builtin hs, Environment.stateOf_of_built? hright hs']
      exact hmetadata

/-- The nodes beside the reroute are made like those without it, and none has its identifier. -/
theorem nodes_of_rerouted (hd : D.left.InReach d) {nodes : List Node}
    (h : List.Forall₂ (Node.Through D.wire D.stop.id) d.nodes nodes) :
    List.Forall₂ D.mirror.Nodes d.nodes nodes ∧ ∀ m ∈ nodes, m.id ≠ D.stop.id := by
  have hall : List.Forall₂ D.mirror.Nodes d.nodes nodes :=
    ((List.forall₂_and_left (p := (· ∈ d.nodes)) _ _).mpr ⟨fun _ h => h, h⟩).imp
      fun _ _ h => nodes_of_through hd h.1 h.2
  refine ⟨hall, ((List.forall₂_and_left (R := fun _ _ => True) _ _).mp (hall.flip.imp
    fun m node h => ⟨?_, trivial⟩)).1⟩
  rw [h.id]
  exact h.named

/-- The reroute is on the right side only. -/
theorem extra (hstop : D.stop.built? = some ⟨.reroute, { input := D.wire }⟩) :
    D.mirror.Extra D.stop.id (D.mirror.right.stateOf D.stop) := by
  have hright : D.right.catalog = .builtin := D.catalog.trans D.builtin
  have hstate : D.mirror.right.stateOf D.stop = .ready (RerouteSettings.spec.behavior ⟨D.wire⟩) :=
    Environment.stateOf_of_built? hright hstop
  rw [hstate]
  refine ⟨not_not_intro rfl, ?_, ?_, ?_⟩
  · intro b hb
    cases hb
    rfl
  · intro r r' d _ hsev h
    show (Report.push r' d).hasFatal = r.hasFatal
    rw [Report.hasFatal_push, hsev, Bool.or_false]
    exact h
  · intro b hb entry hentry
    cases hb
    cases hentry

/-- Checking wires says nothing fatal. -/
theorem checkWires_remarked (g g' : Instance) (b b' : Behavior) (id : NodeId) (s t : Pass)
    (h : D.mirror.Remarked s t) :
    D.mirror.Remarked (s.checkWires g id b) (t.checkWires g' id b') := by
  have hs := checkWires_harmless g id b s
  have ht := checkWires_harmless g' id b' t
  exact ⟨(ht.fatal.trans h.report).trans hs.fatal.symm,
    (ht.metadata.trans h.metadata).trans hs.metadata.symm⟩

/-- The nodes of documents that differ in the reroute at most are made alike, and the reroute has
an identifier of its own. -/
theorem interleaved (h : D.Docs d d') :
    Mirror.Interleaved D.mirror.Nodes (fun n => D.mirror.Extra n.id (D.mirror.right.stateOf n))
        d.nodes d'.nodes ∧
      d'.nodes.Pairwise fun m m' => D.mirror.names m.id ∨ m'.id ≠ m.id := by
  obtain ⟨hfaces, h⟩ := h
  have hd := hfaces.inReach
  rcases h with rfl | ⟨hstop, ⟨before, after, hnodes, hthrough⟩, -⟩
  · have hsame : ∀ node ∈ d'.nodes, D.mirror.Nodes node node := fun node hnode =>
      nodes_of_through hd hnode (.inl rfl)
    exact ⟨.same hsame, List.pairwise_of_forall_mem_list fun m hm _ _ => .inl (hsame m hm).named⟩
  · obtain ⟨hall, hnamed⟩ := nodes_of_rerouted hd hthrough
    obtain ⟨hbefore, hafter⟩ := List.forall_mem_append.mp hnamed
    rw [hnodes]
    refine ⟨.insert (E := fun n => D.mirror.Extra n.id (D.mirror.right.stateOf n)) (extra hstop)
      hall, List.pairwise_append.mpr ⟨?_, ?_, fun m hm _ _ => .inl (hbefore m hm)⟩⟩
    · exact List.pairwise_of_forall_mem_list fun m hm _ _ => .inl (hbefore m hm)
    · refine List.pairwise_cons.mpr ⟨fun m hm => .inr (hafter m hm), ?_⟩
      exact List.pairwise_of_forall_mem_list fun m hm _ _ => .inl (hafter m hm)

/-- **Documents that differ in the reroute at most are made ready alike.** -/
theorem makes (h : D.Docs d d') : D.mirror.Makes d d' :=
  .of_nodes (interleaved h).1 (interleaved h).2 fun _ _ _ _ id s t h =>
    checkWires_remarked _ _ _ _ id s t h

theorem docs_root : D.Docs D.left.root D.right.root := ⟨.inl ⟨rfl, rfl⟩, D.root⟩

theorem docs_library (path : String) :
    Option.Rel D.Docs (D.left.library path) (D.right.library path) := by
  have h := D.library path
  generalize hx : D.left.library path = x at h
  generalize hy : D.right.library path = y at h
  cases h with
  | none => exact .none
  | some h => exact .some ⟨.inr ⟨path, hx, hy⟩, h⟩

/-! ### Nodes at a site -/

variable (D)

/-- A scope that leads to a document with the reroute in it. -/
def Host (scope : Scope) : Prop := ∃ d d', (D.left.route scope).2 = .ok d ∧
  (D.right.route scope).2 = .ok d' ∧ D.left.Faces D.right d d' ∧ d.Rerouted D.wire D.stop d'

/-- A wire that does not lead to the reroute, and the same wire; or the wire that is led through the
reroute, and the wire to the reroute, where there is one. -/
def Turns (scope : Scope) (x x' : Wire) : Prop :=
  (x' = x ∨ D.Host scope ∧ x = D.wire ∧ x' = D.turn) ∧ ¬x.RefersTo D.stop.id

/-- Nodes that stand for each other where a scope leads. -/
structure Alike (scope : Scope) (b b' : Behavior) : Prop where
  /-- The same is wrong with their settings. -/
  errors : b'.errors = b.errors
  role : b'.role = b.role
  /-- They do the same along their wires. -/
  plan : ∀ frame output, (b.plan frame output).Along (D.Turns scope) (b'.plan frame output)
  /-- They have the same inputs. -/
  connections : List.Forall₂ (fun x y : String × Wire => y.1 = x.1 ∧ D.Turns scope x.2 y.2)
    b.connections b'.connections

/-- The same node on both sides. -/
inductive States (scope : Scope) : NodeState → NodeState → Prop where
  /-- A node that can be asked. -/
  | ready {b b' : Behavior} (h : D.Alike scope b b') : States scope (.ready b) (.ready b')
  | broken (message : String) : States scope (.broken message) (.broken message)

variable {D} {scope : Scope}

theorem turn_isConnected : D.turn.isConnected = true := by
  unfold turn Wire.isConnected
  rw [D.named]
  rfl

theorem turns_isConnected {x x' : Wire}
    (h : x' = x ∨ D.Host scope ∧ x = D.wire ∧ x' = D.turn) : x'.isConnected = x.isConnected := by
  rcases h with rfl | ⟨-, rfl, rfl⟩
  · rfl
  · rw [D.connected, turn_isConnected]

/-- Nodes of one class, the second with wires that may be led through the reroute. -/
theorem Alike.of_moved {R : Wire → Wire → Prop} {c : NodeClass} {s s' : c.Settings}
    (hR : ∀ {x x'}, R x x' → x' = x ∨ D.Host scope ∧ x = D.wire ∧ x' = D.turn)
    (hmoved : c.Moved R s s')
    (hclean : ∀ entry ∈ c.spec.connections s, ¬entry.2.RefersTo D.stop.id) :
    D.Alike scope (c.spec.behavior s) (c.spec.behavior s') := by
  have hconnected {x x' : Wire} (h : R x x') : x'.isConnected = x.isConnected :=
    turns_isConnected (hR h)
  obtain ⟨herrors, -, -, hrole⟩ := hmoved.same hconnected
  refine ⟨herrors, hrole, fun frame output => ?_, ?_⟩
  · refine (hmoved.plan hconnected frame output).confine (A := (¬·.RefersTo D.stop.id)) ?_
      fun hx hclean => ⟨hR hx, hclean⟩
    refine (c.plan_confined s frame output).mono fun cmd hask input wire hcmd => ?_
    subst hcmd
    exact hclean (input, wire) hask
  · refine ((List.forall₂_and_left (p := (¬·.2.RefersTo D.stop.id)) _ _).mpr
      ⟨hclean, hmoved.connections⟩).imp fun x y h => ?_
    exact ⟨h.2.1, hR h.2.2, h.1⟩

/-- Nodes with the same identifier stand for each other. -/
theorem states_of_docs (hd : (D.left.route scope).2 = .ok d)
    (hd' : (D.right.route scope).2 = .ok d') (h : D.Docs d d') {id : NodeId}
    (hid : id ≠ D.stop.id) : Option.Rel (D.States scope) ((D.left.instanceOf d).state? id)
      ((D.right.instanceOf d').state? id) := by
  have hmakes := makes h
  obtain ⟨hfaces, rfl | hrerouted⟩ := h
  · have hstate (node : Node) : D.right.stateOf node = D.left.stateOf node :=
      Mirror.stateOf_eq (M := D.mirror) D.catalog node
    rw [Environment.state?_instanceOf, Environment.state?_instanceOf]
    cases hfind : d'.find? id with
    | none => exact .none
    | some node =>
      refine .some ?_
      rw [hstate]
      cases hb : D.left.stateOf node with
      | broken message => exact .broken message
      | ready b =>
        obtain ⟨c, s, hs, rfl⟩ := Environment.stateOf_builtin D.builtin hb
        exact .ready (.of_moved (R := Eq) (fun h => .inl h.symm) (.refl (fun _ => rfl) c s)
          (clean hfaces.inReach (List.mem_of_find?_eq_some hfind) hs))
  · have hhost : D.Host scope := ⟨d, d', hd, hd', hfaces, hrerouted⟩
    have hstate := hmakes.instances.state id hid
    have hleft : D.mirror.left = D.left := rfl
    have hright : D.mirror.right = D.right := rfl
    rw [hleft, hright] at hstate
    generalize (D.left.instanceOf d).state? id = x at hstate
    generalize (D.right.instanceOf d').state? id = y at hstate
    cases hstate with
    | none => exact .none
    | some hstate =>
      cases hstate with
      | broken message => exact .some (.broken message)
      | ready halike =>
        obtain ⟨c, s, s', rfl, rfl, hmoved, hclean⟩ := halike
        exact .some (.ready (.of_moved (fun h => h.imp_right fun h => ⟨hhost, h⟩) hmoved hclean))

/-- The reroute stands where a scope leads to a document with it. -/
theorem stop_of_host (h : D.Host scope) : ∃ d', (D.right.route scope).2 = .ok d' ∧
    (D.right.instanceOf d').state? D.stop.id =
      some (.ready (RerouteSettings.spec.behavior ⟨D.wire⟩)) := by
  obtain ⟨d, d', -, hd', hfaces, hstop, ⟨before, after, hnodes, hthrough⟩, -⟩ := h
  have hright : D.right.catalog = .builtin := D.catalog.trans D.builtin
  have hbefore := (List.forall_mem_append.mp (nodes_of_rerouted hfaces.inReach hthrough).2).1
  have hfind : d'.find? D.stop.id = some D.stop := by
    unfold Document.find?
    rw [hnodes, List.find?_append, List.find?_eq_none.mpr fun m hm => by simp [hbefore m hm],
      List.find?_cons, beq_self_eq_true]
    rfl
  refine ⟨d', hd', ?_⟩
  rw [Environment.state?_instanceOf, hfind]
  exact congrArg some (Environment.stateOf_of_built? hright hstop)

/-- The value of the wire does not come from the result of a material. -/
theorem role_of_source (h : D.Host scope) {stage : Stage} {b : Behavior}
    (hb : D.left.HasNode ⟨if D.wire.path.isEmpty then scope else D.wire.path, D.wire.node,
      D.wire.output, stage⟩ b) : b.role ≠ .materialRoot := by
  obtain ⟨d, d', hd, -, hfaces, hrerouted⟩ := h
  obtain ⟨d₁, hd₁, hb⟩ := hb
  dsimp only at hd₁ hb
  rw [Environment.state?_instanceOf, Option.map_eq_some_iff] at hb
  obtain ⟨node, hfind, hb⟩ := hb
  have hsource : D.left.source? d D.wire = some node := by
    unfold Environment.source?
    split
    · next hpath =>
      rw [if_pos hpath, hd] at hd₁
      cases hd₁
      exact hfind
    · next hpath =>
      rw [if_neg hpath] at hd₁
      rw [show D.left.documentAt D.wire.path = some d₁ from Environment.documentAt_of_stroll hd₁]
      exact hfind
  obtain ⟨c, s, hs, rfl⟩ := Environment.stateOf_builtin D.builtin hb
  intro hrole
  obtain rfl := NodeClass.role_eq_materialRoot hrole
  exact D.source d d' hfaces hrerouted node hsource (Node.className_of_built? hs)

end Detour

end MaterialGraph
