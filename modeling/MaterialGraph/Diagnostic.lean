import MaterialGraph.Fault
import MaterialGraph.NodeId

/-!
# Diagnostics

What a pass has to say about a graph. A report lists diagnostics in the order of
their first appearance, each one once.

## Main results

* `Report.mem_push`, `Report.nodup_push` — a report grows by what is new.
-/

namespace MaterialGraph

/-- How serious a diagnostic is. -/
inductive Severity where
  /-- The program can be used. -/
  | warning
  /-- Something was left out or replaced. -/
  | error
  /-- There is no program. -/
  | fatal
  deriving DecidableEq, Repr, Inhabited

namespace Severity

/-- All severities, the lightest first. -/
def all : List Severity := [.warning, .error, .fatal]

/-- The name in answers. -/
def key : Severity → String
  | .warning => "warning"
  | .error => "error"
  | .fatal => "fatal"

/-- The name in texts. -/
def label : Severity → String
  | .warning => "Warning"
  | .error => "Error"
  | .fatal => "Fatal"

end Severity

/-- What a diagnostic is about. -/
inductive Concern where
  | missingInput
  | invalidCast
  /-- A value has a type that the node cannot use. -/
  | typeMismatch
  | unknownOutput
  /-- A name or an identifier is used twice. -/
  | duplicateName
  | duplicateChannel
  /-- An output depends on itself, or a document calls itself. -/
  | cycleDetected
  /-- A chain of wires is too long. -/
  | depthExceeded
  /-- A wire leads to no node. -/
  | danglingReference
  | assetCompilationFailure
  | unknownNode
  | invalidSettings
  /-- A node was saved by a newer version of its class. -/
  | futureVersion
  /-- A node's settings are not acceptable. -/
  | validation
  /-- A node's own remark. -/
  | node
  deriving DecidableEq, Repr, Inhabited

namespace Concern

/-- All concerns. -/
def all : List Concern :=
  [.missingInput, .invalidCast, .typeMismatch, .unknownOutput, .duplicateName, .duplicateChannel,
    .cycleDetected, .depthExceeded, .danglingReference, .assetCompilationFailure, .unknownNode,
    .invalidSettings, .futureVersion, .validation, .node]

/-- The name in answers. -/
def key : Concern → String
  | .missingInput => "missing_input"
  | .invalidCast => "invalid_cast"
  | .typeMismatch => "type_mismatch"
  | .unknownOutput => "unknown_output"
  | .duplicateName => "duplicate_name"
  | .duplicateChannel => "duplicate_channel"
  | .cycleDetected => "cycle_detected"
  | .depthExceeded => "depth_exceeded"
  | .danglingReference => "dangling_reference"
  | .assetCompilationFailure => "asset_compilation_failure"
  | .unknownNode => "unknown_node"
  | .invalidSettings => "invalid_settings"
  | .futureVersion => "future_version"
  | .validation => "validation"
  | .node => "node"

/-- The name in messages. -/
def label : Concern → String
  | .missingInput => "MissingInput"
  | .invalidCast => "InvalidCast"
  | .typeMismatch => "TypeMismatch"
  | .unknownOutput => "UnknownOutput"
  | .duplicateName => "DuplicateName"
  | .duplicateChannel => "DuplicateChannel"
  | .cycleDetected => "CycleDetected"
  | .depthExceeded => "DepthExceeded"
  | .danglingReference => "DanglingReference"
  | .assetCompilationFailure => "AssetCompilationFailure"
  | .unknownNode => "UnknownNode"
  | .invalidSettings => "InvalidSettings"
  | .futureVersion => "FutureVersion"
  | .validation => "Validation"
  | .node => "Node"

end Concern

/-- One remark of a pass. -/
structure Diagnostic where
  severity : Severity
  concern : Concern
  /-- The node it is about; none for the graph as a whole. -/
  node : NodeId
  message : String
  deriving DecidableEq, Repr, Inhabited

namespace Diagnostic

/-- A remark that leaves a program that can be used. -/
def warning (concern : Concern) (node : NodeId) (message : String) : Diagnostic :=
  ⟨.warning, concern, node, message⟩

/-- A remark that leaves a program that should not be used. -/
def error (concern : Concern) (node : NodeId) (message : String) : Diagnostic :=
  ⟨.error, concern, node, message⟩

/-- An error that leaves no program. -/
def fatal (concern : Concern) (node : NodeId) (message : String) : Diagnostic :=
  ⟨.fatal, concern, node, message⟩

/-- The remark about a node that failed. A fault that came from further up has
been reported there. -/
def ofFault? (node : NodeId) (fault : Fault) : Option Diagnostic :=
  match fault with
  | .missingInput _ => some (error .missingInput node fault.text)
  | .invalidCast _ _ => some (error .invalidCast node fault.text)
  | .typeMismatch _ => some (error .typeMismatch node fault.text)
  | .unknownOutput _ => some (error .unknownOutput node fault.text)
  | .duplicateName _ => some (fatal .duplicateName node fault.text)
  | .message _ => some (error .node node fault.text)
  | .brokenInput _ | .cycle _ => none

/-- A diagnostic as one line of text. -/
def text (d : Diagnostic) : String :=
  let node := if d.node.isNil then "" else " " ++ d.node.text
  d.severity.label ++ " [" ++ d.concern.label ++ "]" ++ node ++ ": " ++ d.message

/-- A remark in an answer. -/
def write (d : Diagnostic) : Json := .record
  [("severity", some (.string d.severity.key)), ("kind", some (.string d.concern.key)),
    ("node", some d.node.write), ("message", some (.string d.message))]

end Diagnostic

/-- Diagnostics in the order of their first appearance. -/
structure Report where
  /-- The diagnostics, without repetition. -/
  entries : List Diagnostic := []
  deriving DecidableEq, Repr, Inhabited

namespace Report

/-- The report with one more diagnostic, unless it is there already. -/
def push (r : Report) (d : Diagnostic) : Report :=
  if d ∈ r.entries then r else ⟨r.entries ++ [d]⟩

theorem mem_push {r : Report} {d e : Diagnostic} :
    e ∈ (r.push d).entries ↔ e = d ∨ e ∈ r.entries := by
  unfold push
  split
  · exact ⟨.inr, fun h => h.elim (fun h => h ▸ ‹d ∈ r.entries›) id⟩
  · simp [or_comm]

/-- No diagnostic of a report is repeated when one more is reported. -/
theorem nodup_push {r : Report} (d : Diagnostic) (h : r.entries.Nodup) :
    (r.push d).entries.Nodup := by
  unfold push
  split
  · exact h
  · exact List.nodup_append.2 ⟨h, by simp, fun a ha b hb => by
      rintro rfl
      simp_all⟩

/-- Whether there is no program. -/
def hasFatal (r : Report) : Bool := r.entries.any (·.severity == .fatal)

/-- Whether anything is more serious than a warning. -/
def hasErrors (r : Report) : Bool := r.entries.any (·.severity != .warning)

end Report

end MaterialGraph
