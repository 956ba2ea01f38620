import MaterialGraph.NodeId

/-!
# Documents

A document is a list of nodes. A node names its class and carries the settings
of that class as a value that only the class can read; the wires between nodes
are part of those settings.
-/

namespace MaterialGraph

open RecordReader

/-! ### Wires -/

/-- A chain of calls from the root document: the identifiers of the call nodes. -/
abbrev Scope := List NodeId

/-- The source of an input's value. An input without a node is not connected. A
path that is empty means the scope of the consumer; otherwise it lists the calls
that lead from the root to the node. -/
structure Wire where
  node : NodeId := .nil
  output : String := ""
  /-- The calls that lead to the node. -/
  path : Scope := []
  deriving DecidableEq, Repr, Inhabited

namespace Wire

/-- An input without source. -/
def disconnected : Wire := {}

/-- The wire to an output of a node in the scope of the consumer. -/
def ofNode (id : BitVec 128) (output : String := "result") : Wire := { node := ⟨id⟩, output }

/-- Whether there is a source. -/
def isConnected (w : Wire) : Bool := !w.node.isNil

/-- Reads a wire. -/
def read (j : Json) : Except Mismatch Wire := j.readRecord "struct NodeInput" do
  let node ← field "node" NodeId.read .nil
  let output ← field "output" Json.readString ""
  let path ← field "subgraph_path" (Json.readList NodeId.read) []
  return { node, output, path }

/-- A wire in a document. -/
def write (w : Wire) : Json := .record
  [("node", w.node.nonNil), ("output", Json.nonEmpty w.output),
    ("subgraph_path", if w.path.isEmpty then none else some (.ofList NodeId.write w.path))]

end Wire

/-! ### Nodes -/

/-- A saved node. -/
structure Node where
  id : NodeId := .nil
  className : String
  /-- The version of the class that saved it. -/
  version : UInt32 := 1
  /-- The settings, for the class to read. -/
  settings : Json := .null
  /-- What the editor keeps beside them. -/
  extras : Json := .null
  deriving Repr, Inhabited

namespace Node

/-- Reads a node; only its class is required. -/
def read (j : Json) : Except Mismatch Node := j.readRecord "a node" do
  let id ← field "id" NodeId.read .nil
  let className ← requiredField "__class" Json.readString
  let version ← field "version" Json.readUInt32 1
  let settings ← field "settings" Json.readAny .null
  let extras ← field "extras" Json.readAny .null
  return { id, className, version, settings, extras }

/-- A node in a document. -/
def write (n : Node) : Json := .record
  [("id", n.id.nonNil), ("__class", some (.string n.className)),
    ("version", some (.int n.version.toNat)), ("settings", n.settings.nonNull),
    ("extras", n.extras.nonNull)]

end Node

/-! ### Documents -/

/-- The version of documents that are written today. -/
def documentVersion : UInt32 := 2

/-- A saved graph. -/
structure Document where
  id : NodeId := .nil
  /-- The version of its form. -/
  version : UInt32 := documentVersion
  description : String := ""
  /-- Whether it is meant to be called from other documents. -/
  isSubgraph : Bool := false
  /-- Its nodes, in the order of the document. -/
  nodes : List Node := []
  extras : Json := .null
  deriving Repr, Inhabited

namespace Document

/-- Reads a document; only its nodes are required. -/
def read (j : Json) : Except Mismatch Document := j.readRecord "a document" do
  let id ← field "id" NodeId.read .nil
  let version ← field "version" Json.readUInt32 documentVersion
  let description ← field "description" Json.readString ""
  let isSubgraph ← field "is_subgraph" Json.readBool false
  let nodes ← requiredField "nodes" (Json.readList Node.read)
  let extras ← field "extras" Json.readAny .null
  return { id, version, description, isSubgraph, nodes, extras }

/-- A document as it is saved. -/
def write (d : Document) : Json := .record
  [("id", d.id.nonNil), ("version", some (.int d.version.toNat)),
    ("description", Json.nonEmpty d.description), ("is_subgraph", some (.bool d.isSubgraph)),
    ("nodes", some (.ofList Node.write d.nodes)), ("extras", d.extras.nonNull)]

/-- The first node with an identifier. -/
def find? (d : Document) (id : NodeId) : Option Node := d.nodes.find? (·.id == id)

/-- The nodes of a class in their order. -/
def ofClass (d : Document) (className : String) : List Node :=
  d.nodes.filter (·.className == className)

/-- The document with one more node. A node without identifier gets `fresh`. -/
def add (d : Document) (node : Node) (fresh : NodeId) : NodeId × Document :=
  let node := if node.id.isNil then { node with id := fresh } else node
  (node.id, { d with nodes := d.nodes ++ [node] })

/-- The document with other settings for the first node with an identifier. -/
def setSettings (d : Document) (id : NodeId) (settings : Json) : Document :=
  let rec go : List Node → List Node
    | [] => []
    | n :: ns => if n.id == id then { n with settings } :: ns else n :: go ns
  { d with nodes := go d.nodes }

end Document

end MaterialGraph
