import MaterialGraph.Plan

/-!
# Arithmetic nodes

Operators and functions that work on each component. Scalars broadcast to the
width of the other operand; two vectors must agree in width. An input that is
left open has a number of its own in the settings.
-/

namespace MaterialGraph

open Number RecordReader

/-! ### Types of results -/

/-- The number `0.5`. -/
def half : Single := .ofRatio false 1 2

/-- The fault of an operand that has no components. -/
def Fault.notNumeric (t : ShaderType) : Fault := .typeMismatch (t.text ++ " is not a numeric value")

/-- The type of an operand with components. -/
def numericType (e : Expr) : Except Fault ShaderType :=
  if e.type.isNumeric then .ok e.type else .error (.notNumeric e.type)

/-- The type of a component-wise operation on two operands. -/
def combinedType (a b : Expr) : Except Fault ShaderType := do
  let s ← numericType a
  let t ← numericType b
  match s.combine t with
  | some r => .ok r
  | none => .error (.castTo t s)

/-- Both operands at their common width, for functions that do not broadcast. -/
def widened (types : TypeTable) (a b : Expr) : Except Fault (Expr × Expr) := do
  match (← combinedType a b).components with
  | some n => return (← a.cast types n, ← b.cast types n)
  | none => .error (.castTo a.type b.type)

/-! ### Two operands -/

/-- Operations on two operands. -/
inductive BinaryOp where
  | add
  | subtract
  | multiply
  | divide
  | min
  | max
  | power
  /-- The inner product. -/
  | dot
  | cross
  | distance
  deriving DecidableEq, Repr

namespace BinaryOp

/-- All operations on two values. -/
def all : List BinaryOp :=
  [.add, .subtract, .multiply, .divide, .min, .max, .power, .dot, .cross, .distance]

/-- The name of the class. -/
def name : BinaryOp → String
  | .add => "Add"
  | .subtract => "Subtract"
  | .multiply => "Multiply"
  | .divide => "Divide"
  | .min => "Min"
  | .max => "Max"
  | .power => "Power"
  | .dot => "Dot"
  | .cross => "Cross"
  | .distance => "Distance"

/-- The value of both inputs when they are left open: one where zero would
destroy the other operand. -/
def fallback : BinaryOp → Single
  | .multiply | .divide | .power => one
  | _ => zero

/-- Two operands with an operator between them. -/
def operatorCode (operator : String) (a b : Expr) : String :=
  a.operand ++ " " ++ operator ++ " " ++ b.operand

/-- A function of two operands. -/
def callCode (function : String) (a b : Expr) : String :=
  function ++ "( " ++ a.code ++ ", " ++ b.code ++ " )"

/-- Type and text of the result. -/
def emit (types : TypeTable) (op : BinaryOp) (a b : Expr) : Except Fault (ShaderType × String) :=
  match op with
  | .add => do return (← combinedType a b, operatorCode "+" a b)
  | .subtract => do return (← combinedType a b, operatorCode "-" a b)
  | .multiply => do return (← combinedType a b, operatorCode "*" a b)
  | .divide => do return (← combinedType a b, operatorCode "/" a b)
  | .min => do return (← combinedType a b, callCode "min" a b)
  | .max => do return (← combinedType a b, callCode "max" a b)
  | .power => do return (← combinedType a b, callCode "pow" a b)
  | .dot => do
    let (a, b) ← widened types a b
    return (.float, callCode "dot" a b)
  | .cross => do
    let a ← a.cast types 3
    let b ← b.cast types 3
    return (.vector3, callCode "cross" a b)
  | .distance => do
    let (a, b) ← widened types a b
    return (.float, callCode "distance" a b)

end BinaryOp

/-- The settings of a node with two operands. -/
structure BinarySettings where
  a : Wire := {}
  b : Wire := {}
  /-- The first operand when it is left open. -/
  defaultA : Single
  /-- The second operand when it is left open. -/
  defaultB : Single
  deriving DecidableEq, Repr

namespace BinaryOp

/-- Reads the settings; the defaults depend on the operation. -/
def fields (op : BinaryOp) : RecordReader BinarySettings := do
  let a ← field "a" Wire.read {}
  let b ← field "b" Wire.read {}
  let defaultA ← field "default_a" Json.readSingle op.fallback
  let defaultB ← field "default_b" Json.readSingle op.fallback
  return { a, b, defaultA, defaultB }

/-- Saves the settings of an operation on two values. -/
def write (s : BinarySettings) : Json := .record
  [("a", some s.a.write), ("b", some s.b.write), ("default_a", some (.ofSingle s.defaultA)),
    ("default_b", some (.ofSingle s.defaultB))]

/-- The class of an operation on two values. -/
def spec (op : BinaryOp) : NodeSpec BinarySettings where
  name := op.name
  inputs := [("a", .any), ("b", .any)]
  outputs := [(resultOutput, .any)]
  initial := { defaultA := op.fallback, defaultB := op.fallback }
  fields := op.fields
  write := write
  connections s := [("a", s.a), ("b", s.b)]
  plan s frame output := .onlyResult op.name output do
    let a ← .orDefault frame.types "a" s.a (.float s.defaultA)
    let b ← .orDefault frame.types "b" s.b (.float s.defaultB)
    let (type, code) ← Plan.ofExcept (op.emit frame.types a b)
    return { type, code, isConstant := a.isConstant && b.isConstant }

end BinaryOp

/-! ### One operand -/

/-- Operations on one operand. -/
inductive UnaryOp where
  | abs
  | negate
  | oneMinus
  /-- Kept between zero and one. -/
  | saturate
  /-- The direction. -/
  | normalize
  | length
  | sin
  | cos
  /-- The part after the point. -/
  | frac
  | floor
  | ceil
  | sqrt
  deriving DecidableEq, Repr

namespace UnaryOp

/-- All operations on one value. -/
def all : List UnaryOp :=
  [.abs, .negate, .oneMinus, .saturate, .normalize, .length, .sin, .cos, .frac, .floor, .ceil,
    .sqrt]

/-- The name of the class. -/
def name : UnaryOp → String
  | .abs => "Abs"
  | .negate => "Negate"
  | .oneMinus => "OneMinus"
  | .saturate => "Saturate"
  | .normalize => "Normalize"
  | .length => "Length"
  | .sin => "Sin"
  | .cos => "Cos"
  | .frac => "Frac"
  | .floor => "Floor"
  | .ceil => "Ceil"
  | .sqrt => "Sqrt"

/-- A function of one operand. -/
def callCode (function : String) (e : Expr) : String := function ++ "( " ++ e.code ++ " )"

/-- The text of the result. -/
def code (op : UnaryOp) (e : Expr) : String :=
  match op with
  | .abs => callCode "abs" e
  | .negate => "-" ++ e.operand
  | .oneMinus => "1 - " ++ e.operand
  | .saturate => callCode "saturate" e
  | .normalize => callCode "normalize" e
  | .length => callCode "length" e
  | .sin => callCode "sin" e
  | .cos => callCode "cos" e
  | .frac => callCode "frac" e
  | .floor => callCode "floor" e
  | .ceil => callCode "ceil" e
  | .sqrt => callCode "sqrt" e

/-- Type and text of the result; a length is a scalar. -/
def emit (op : UnaryOp) (e : Expr) : Except Fault (ShaderType × String) := do
  let type ← numericType e
  return (if op = .length then .float else type, op.code e)

end UnaryOp

/-- The settings of a node with one operand. -/
structure UnarySettings where
  input : Wire := {}
  /-- The operand when it is left open. -/
  fallback : Single := zero
  deriving DecidableEq, Repr

namespace UnaryOp

/-- Reads the settings of an operation on one value. -/
def fields : RecordReader UnarySettings := do
  let input ← field "input" Wire.read {}
  let fallback ← field "default" Json.readSingle zero
  return { input, fallback }

/-- Saves the settings of an operation on one value. -/
def write (s : UnarySettings) : Json := .record
  [("input", some s.input.write), ("default", some (.ofSingle s.fallback))]

/-- The class of an operation on one value. -/
def spec (op : UnaryOp) : NodeSpec UnarySettings where
  name := op.name
  inputs := [("input", .any)]
  outputs := [(resultOutput, .any)]
  initial := {}
  fields := fields
  write := write
  connections s := [("input", s.input)]
  plan s frame output := .onlyResult op.name output do
    let e ← .orDefault frame.types "input" s.input (.float s.fallback)
    let (type, code) ← Plan.ofExcept (op.emit e)
    return { type, code, isConstant := e.isConstant }

end UnaryOp

/-! ### Interpolation -/

/-- The settings of a linear interpolation. -/
structure LerpSettings where
  /-- The value at zero. -/
  a : Wire := {}
  /-- The value at one. -/
  b : Wire := {}
  /-- Where between them. -/
  t : Wire := {}
  defaultA : Single := zero
  defaultB : Single := one
  defaultT : Single := half
  deriving DecidableEq, Repr

namespace LerpSettings

/-- Reads the settings of an interpolation. -/
def fields : RecordReader LerpSettings := do
  let a ← field "a" Wire.read {}
  let b ← field "b" Wire.read {}
  let t ← field "t" Wire.read {}
  let defaultA ← field "default_a" Json.readSingle zero
  let defaultB ← field "default_b" Json.readSingle one
  let defaultT ← field "default_t" Json.readSingle half
  return { a, b, t, defaultA, defaultB, defaultT }

/-- Saves the settings of an interpolation. -/
def write (s : LerpSettings) : Json := .record
  [("a", some s.a.write), ("b", some s.b.write), ("t", some s.t.write),
    ("default_a", some (.ofSingle s.defaultA)), ("default_b", some (.ofSingle s.defaultB)),
    ("default_t", some (.ofSingle s.defaultT))]

/-- The interpolation of two values, at a scalar or at one number for each
component. -/
def emit (types : TypeTable) (a b t : Expr) : Except Fault Expr := do
  let (a, b) ← widened types a b
  let type ← combinedType a b
  if t.components ≠ some 1 then
    let _ ← combinedType a t
  return {
    type, code := "lerp( " ++ a.code ++ ", " ++ b.code ++ ", " ++ t.code ++ " )"
    isConstant := a.isConstant && b.isConstant && t.isConstant }

/-- Interpolation between two values. -/
def spec : NodeSpec LerpSettings where
  name := "Lerp"
  version := 2
  inputs := [("a", .any), ("b", .any), ("t", .any)]
  outputs := [(resultOutput, .any)]
  initial := {}
  fields := fields
  write := write
  connections s := [("a", s.a), ("b", s.b), ("t", s.t)]
  plan s frame output := .onlyResult "Lerp" output do
    let a ← .orDefault frame.types "a" s.a (.float s.defaultA)
    let b ← .orDefault frame.types "b" s.b (.float s.defaultB)
    let t ← .orDefault frame.types "t" s.t (.float s.defaultT)
    Plan.ofExcept (emit frame.types a b t)

end LerpSettings

/-! ### Clamping -/

/-- The settings of a value kept between bounds. -/
structure ClampSettings where
  input : Wire := {}
  min : Wire := {}
  max : Wire := {}
  defaultMin : Single := zero
  defaultMax : Single := one
  deriving DecidableEq, Repr

namespace ClampSettings

/-- Reads the settings of a clamp. -/
def fields : RecordReader ClampSettings := do
  let input ← field "input" Wire.read {}
  let min ← field "min" Wire.read {}
  let max ← field "max" Wire.read {}
  let defaultMin ← field "default_min" Json.readSingle zero
  let defaultMax ← field "default_max" Json.readSingle one
  return { input, min, max, defaultMin, defaultMax }

/-- Saves the settings of a clamp. -/
def write (s : ClampSettings) : Json := .record
  [("input", some s.input.write), ("min", some s.min.write), ("max", some s.max.write),
    ("default_min", some (.ofSingle s.defaultMin)),
    ("default_max", some (.ofSingle s.defaultMax))]

/-- A value between two bounds. -/
def emit (e low high : Expr) : Except Fault Expr := do
  let partly ← combinedType e low
  let highType ← numericType high
  match partly.combine highType with
  | none => .error (.castTo highType partly)
  | some type =>
    return {
      type, code := "clamp( " ++ e.code ++ ", " ++ low.code ++ ", " ++ high.code ++ " )"
      isConstant := e.isConstant && low.isConstant && high.isConstant }

/-- A value kept between two bounds. -/
def spec : NodeSpec ClampSettings where
  name := "Clamp"
  inputs := [("input", .any), ("min", .any), ("max", .any)]
  outputs := [(resultOutput, .any)]
  initial := {}
  fields := fields
  write := write
  connections s := [("input", s.input), ("min", s.min), ("max", s.max)]
  plan s frame output := .onlyResult "Clamp" output do
    let e ← .orDefault frame.types "input" s.input (.float zero)
    let low ← .orDefault frame.types "min" s.min (.float s.defaultMin)
    let high ← .orDefault frame.types "max" s.max (.float s.defaultMax)
    Plan.ofExcept (emit e low high)

end ClampSettings

/-! ### Change of range -/

/-- The settings of a value carried from one range to another. -/
structure RemapSettings where
  input : Wire := {}
  /-- Where its range starts. -/
  inMin : Single := zero
  /-- Where its range ends. -/
  inMax : Single := one
  /-- Where the other range starts. -/
  outMin : Single := zero
  /-- Where the other range ends. -/
  outMax : Single := one
  deriving DecidableEq, Repr

namespace RemapSettings

/-- Reads the settings of a remap. -/
def fields : RecordReader RemapSettings := do
  let input ← field "input" Wire.read {}
  let inMin ← field "in_min" Json.readSingle zero
  let inMax ← field "in_max" Json.readSingle one
  let outMin ← field "out_min" Json.readSingle zero
  let outMax ← field "out_max" Json.readSingle one
  return { input, inMin, inMax, outMin, outMax }

/-- Saves the settings of a remap. -/
def write (s : RemapSettings) : Json := .record
  [("input", some s.input.write), ("in_min", some (.ofSingle s.inMin)),
    ("in_max", some (.ofSingle s.inMax)), ("out_min", some (.ofSingle s.outMin)),
    ("out_max", some (.ofSingle s.outMax))]

/-- The value in the other range. -/
def emit (s : RemapSettings) (e : Expr) : Except Fault Expr := do
  let type ← numericType e
  let inMin := floatLiteral s.inMin
  let inMax := floatLiteral s.inMax
  let outMin := floatLiteral s.outMin
  let outMax := floatLiteral s.outMax
  let code :=
    outMin ++ " + ( " ++ e.operand ++ " - " ++ inMin ++ " ) * ( " ++ outMax ++ " - " ++ outMin ++
      " ) / ( " ++ inMax ++ " - " ++ inMin ++ " )"
  return { type, code, isConstant := e.isConstant }

/-- A value moved from one range to another. -/
def spec : NodeSpec RemapSettings where
  name := "Remap"
  inputs := [("input", .any)]
  outputs := [(resultOutput, .any)]
  initial := {}
  fields := fields
  write := write
  connections s := [("input", s.input)]
  errors s := if s.inMin.numEq s.inMax then ["input range is empty"] else []
  plan s frame output := .onlyResult "Remap" output do
    let e ← .orDefault frame.types "input" s.input (.float zero)
    Plan.ofExcept (s.emit e)

end RemapSettings

end MaterialGraph
