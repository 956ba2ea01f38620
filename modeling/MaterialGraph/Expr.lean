import MaterialGraph.Fault
import MaterialGraph.Text.Identifier
import MaterialGraph.TypeTable

/-!
# Expressions

An expression is a piece of program text with its type. It is constant when it
is built from literals only, and it may carry remarks for its consumers.

A value changes its width in two ways: a scalar is repeated, and a vector drops
its last components. No vector ever grows.
-/

namespace MaterialGraph

/-! ### Expressions -/

/-- Program text with a type. -/
structure Expr where
  type : ShaderType
  code : String
  /-- Whether it is built from literals only. -/
  isConstant : Bool := false
  /-- Remarks for consumers. -/
  metadata : Dictionary String := []
  deriving DecidableEq, Repr, Inhabited

namespace Expr

/-- How many components the value has. -/
def components (e : Expr) : Option Nat := e.type.components

/-- The expression with a remark added. -/
def remark (e : Expr) (key value : String) : Expr :=
  { e with metadata := e.metadata.insert key value }

/-- The text as an operand: in parentheses unless it is atomic. -/
def operand (e : Expr) : String :=
  if Text.isAtomic e.code then e.code else "( " ++ e.code ++ " )"

/-- The letters of the first `n` components. -/
def swizzle (n : Nat) : String := String.ofList (['x', 'y', 'z', 'w'].take n)

/-- The value with `n` components: unchanged if it has as many, a scalar repeated,
a wider vector cut. -/
def cast (types : TypeTable) (e : Expr) (n : Nat) : Except Fault Expr :=
  match ShaderType.vector? n with
  | none => .error (.invalidCast e.type (toString n))
  | some target =>
    match e.components with
    | none => .error (.castTo e.type target)
    | some width =>
      if width = n then .ok e
      else if width = 1 then
        let list := ", ".intercalate (List.replicate n e.operand)
        .ok { e with type := target, code := types.name target ++ "( " ++ list ++ " )" }
      else if n < width then
        .ok { e with type := target, code := e.operand ++ "." ++ swizzle n }
      else .error (.castTo e.type target)

/-- The value as one of type `t`, which takes its name when the width agrees. -/
def castTo (types : TypeTable) (e : Expr) (t : ShaderType) : Except Fault Expr :=
  if t = e.type ∨ t = .any then .ok e
  else
    match t.components with
    | none => .error (.castTo e.type t)
    | some n =>
      (e.cast types n).map fun r =>
        if r.components = t.components then { r with type := t } else r

end Expr

/-! ### Outcomes -/

/-- What became of a requested output. Only a valid one has text. -/
inductive Outcome where
  | valid (e : Expr)
  /-- The node failed. -/
  | error (text : String)
  /-- An input of the node, or the node itself, is missing. -/
  | missingInput (text : String)
  deriving DecidableEq, Repr, Inhabited

namespace Outcome

/-- What others see of a fault. -/
def ofFault : Fault → Outcome
  | .missingInput input => .missingInput input
  | fault => .error fault.text

/-- Whether there is a value. -/
def isValid : Outcome → Bool
  | .valid _ => true
  | _ => false

/-- The value, if there is one. -/
def expr? : Outcome → Option Expr
  | .valid e => some e
  | _ => none

/-- The text of an outcome that is not valid. -/
def text? : Outcome → Option String
  | .valid _ => none
  | .error text => some text
  | .missingInput text => some text

/-- The expression for the consumer's `input`, or the consumer's own fault. -/
def toExpr (input : String) : Outcome → Except Fault Expr
  | .valid e => .ok e
  | .error _ => .error (.brokenInput input)
  | .missingInput _ => .error (.missingInput input)

end Outcome

end MaterialGraph
