import MaterialGraph.Plan

/-!
# Nodes on components

Taking vectors apart, putting them together, and choosing among their
components.
-/

namespace MaterialGraph

open Number RecordReader

/-- The letters of the components, in order. -/
def componentLetters : List String := ["x", "y", "z", "w"]

/-- The fault of a type that lacks a component. -/
def Fault.noComponent (t : ShaderType) (letter : String) : Fault :=
  .typeMismatch (t.text ++ " has no " ++ letter ++ " component")

/-! ### Apart -/

/-- The settings of a vector taken apart. -/
structure SplitSettings where
  input : Wire := {}
  /-- The vector when it is left open. -/
  fallback : Vec4 := .zeros
  deriving DecidableEq, Repr

namespace SplitSettings

/-- Reads the settings of a split. -/
def fields : RecordReader SplitSettings := do
  let input ← field "input" Wire.read {}
  let fallback ← field "default" Vec4.read .zeros
  return { input, fallback }

/-- Saves the settings of a split. -/
def write (s : SplitSettings) : Json := .record
  [("input", some s.input.write), ("default", some s.fallback.write)]

/-- The component of a value with the given letter and index. -/
def emit (e : Expr) (letter : String) (index : Nat) : Except Fault Expr :=
  match e.components with
  | none => .error (.castTo e.type .float)
  | some n =>
    if n ≤ index then .error (.noComponent e.type letter)
    else .ok { type := .float, code := e.operand ++ "." ++ letter, isConstant := e.isConstant }

/-- The components of a vector, each as an output. -/
def spec : NodeSpec SplitSettings where
  name := "SplitVector"
  inputs := [("input", .any)]
  outputs := [("x", .float), ("y", .float), ("z", .float), ("w", .float)]
  initial := {}
  fields := fields
  write := write
  connections s := [("input", s.input)]
  plan s frame output :=
    match componentLetters.findIdx? (· == output) with
    | none => .fail (.noOutput "SplitVector" output)
    | some index => do
      let e ← .orDefault frame.types "input" s.input (.vector4 s.fallback)
      Plan.ofExcept (emit e output index)

end SplitSettings

/-! ### Together -/

/-- The settings of a vector put together. -/
structure CombineSettings where
  x : Wire := {}
  y : Wire := {}
  z : Wire := {}
  w : Wire := {}
  /-- How many of them are used. -/
  components : UInt8 := 4
  /-- The components that are left open. -/
  fallback : Vec4 := .zeros
  deriving DecidableEq, Repr

namespace CombineSettings

/-- Reads the settings of a combination. -/
def fields : RecordReader CombineSettings := do
  let x ← field "x" Wire.read {}
  let y ← field "y" Wire.read {}
  let z ← field "z" Wire.read {}
  let w ← field "w" Wire.read {}
  let components ← field "components" Json.readUInt8 4
  let fallback ← field "default" Vec4.read .zeros
  return { x, y, z, w, components, fallback }

/-- Saves the settings of a combination. -/
def write (s : CombineSettings) : Json := .record
  [("x", some s.x.write), ("y", some s.y.write), ("z", some s.z.write), ("w", some s.w.write),
    ("components", some (.int s.components.toNat)), ("default", some s.fallback.write)]

/-- The inputs of the components. -/
def connections (s : CombineSettings) : List (String × Wire) :=
  [("x", s.x), ("y", s.y), ("z", s.z), ("w", s.w)]

/-- The type of the vector, if it has two to four components. -/
def type? (s : CombineSettings) : Option ShaderType :=
  if 2 ≤ s.components.toNat then ShaderType.vector? s.components.toNat else none

/-- The components one after the other, each the first one of its input. -/
def parts (types : TypeTable) : List ((String × Wire) × Single) → Plan (List Expr)
  | [] => return []
  | ((input, wire), fallback) :: rest => do
    let e ← .orDefault types input wire (.float fallback)
    let e ← Plan.ofExcept (e.cast types 1)
    return e :: (← parts types rest)

/-- A vector made of components. -/
def spec : NodeSpec CombineSettings where
  name := "CombineVector"
  inputs := [("x", .float), ("y", .float), ("z", .float), ("w", .float)]
  outputs := [(resultOutput, .any)]
  initial := {}
  fields := fields
  write := write
  connections := connections
  errors s :=
    if 2 ≤ s.components.toNat ∧ s.components.toNat ≤ 4 then []
    else [toString s.components.toNat ++ " is not a vector width"]
  plan s frame output := .onlyResult "CombineVector" output do
    match s.type? with
    | none => .fail (.message "CombineVector needs 2 to 4 components")
    | some type =>
      let es ← parts frame.types
        ((s.connections.zip s.fallback.toList).take s.components.toNat)
      return {
        type
        code := frame.types.name type ++ "( " ++ ", ".intercalate (es.map (·.code)) ++ " )"
        isConstant := es.all (·.isConstant) }

end CombineSettings

/-! ### Chosen -/

/-- The settings of a choice of components. -/
structure SwizzleSettings where
  input : Wire := {}
  /-- One to four of the letters `xyzw`, or of `rgba`. -/
  mask : String := "xyz"
  deriving DecidableEq, Repr

namespace SwizzleSettings

/-- Reads the settings of a swizzle. -/
def fields : RecordReader SwizzleSettings := do
  let input ← field "input" Wire.read {}
  let mask ← field "mask" Json.readString "xyz"
  return { input, mask }

/-- Saves the settings of a swizzle. -/
def write (s : SwizzleSettings) : Json := .record
  [("input", some s.input.write), ("mask", some (.string s.mask))]

/-- The indices of letters in an alphabet, if all are in it. -/
def indicesIn (alphabet mask : List Char) : Option (List Nat) :=
  mask.mapM fun c => alphabet.findIdx? (· == c)

/-- The components that the mask chooses. -/
def indices? (s : SwizzleSettings) : Option (List Nat) :=
  let mask := s.mask.toList
  if mask.isEmpty ∨ 4 < mask.length then none
  else indicesIn "xyzw".toList mask <|> indicesIn "rgba".toList mask

/-- What is wrong with the mask. -/
def maskError (s : SwizzleSettings) : String := "invalid swizzle \"" ++ s.mask ++ "\""

/-- The letter of a component. -/
def letter (index : Nat) : String := componentLetters[index]?.getD ""

/-- The chosen components of a value. -/
def emit (e : Expr) (indices : List Nat) : Except Fault Expr :=
  match e.components with
  | none => .error (.castTo e.type .vector4)
  | some n =>
    match indices.find? (n ≤ ·) with
    | some index => .error (.noComponent e.type (letter index))
    | none =>
      match ShaderType.vector? indices.length with
      | none => .error (.message "invalid swizzle width")
      | some type =>
        .ok {
          type, code := e.operand ++ "." ++ String.join (indices.map letter)
          isConstant := e.isConstant }

/-- Components of a vector in any order. -/
def spec : NodeSpec SwizzleSettings where
  name := "Swizzle"
  inputs := [("input", .any)]
  outputs := [(resultOutput, .any)]
  initial := {}
  fields := fields
  write := write
  connections s := [("input", s.input)]
  errors s := if s.indices?.isSome then [] else [s.maskError]
  plan s frame output := .onlyResult "Swizzle" output do
    match s.indices? with
    | none => .fail (.message s.maskError)
    | some indices =>
      let e ← .orDefault frame.types "input" s.input (.vector4 .zeros)
      Plan.ofExcept (emit e indices)

end SwizzleSettings

end MaterialGraph
