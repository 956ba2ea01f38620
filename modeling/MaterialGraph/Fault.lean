import MaterialGraph.ShaderType

/-!
# Why a node fails

A node that cannot provide an output says why. Some faults pass on the failure
of a node further up; they are reported where they arose.
-/

namespace MaterialGraph

/-- Why an output cannot be provided. -/
inductive Fault where
  /-- An input that the node needs has no value. -/
  | missingInput (input : String)
  /-- A value cannot become what is asked for, a type or a width. -/
  | invalidCast (source : ShaderType) (target : String)
  /-- A value has a type that the node cannot use. -/
  | typeMismatch (text : String)
  | unknownOutput (name : String)
  /-- The node behind an input failed. -/
  | brokenInput (input : String)
  | duplicateName (name : String)
  /-- The output depends on itself. -/
  | cycle (chain : String)
  /-- Anything else. -/
  | message (text : String)
  deriving DecidableEq, Repr

/-- What a fault says. -/
def Fault.text : Fault → String
  | .missingInput input => "missing input: " ++ input
  | .invalidCast source target => "cannot cast " ++ source.text ++ " to " ++ target
  | .typeMismatch text => "type mismatch: " ++ text
  | .unknownOutput name => "unknown output: " ++ name
  | .brokenInput input => "input " ++ input ++ " could not be resolved"
  | .duplicateName name => "duplicate name: " ++ name
  | .cycle chain => "dependency cycle: " ++ chain
  | .message text => text

/-- A value that cannot become another type. -/
def Fault.castTo (source target : ShaderType) : Fault := .invalidCast source target.text

end MaterialGraph
