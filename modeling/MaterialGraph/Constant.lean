import MaterialGraph.Number.Decimal
import MaterialGraph.TypeTable

/-!
# Constant values

Values that a node writes into program text as literals, or that a parameter has
as its default.

Numbers in program text are the fewest digits that read back, without exponent.
What is not a number is written as zero, the infinities as the greatest finite
number, and zero without its sign.
-/

namespace MaterialGraph

open Number

/-! ### Numbers in program text -/

/-- A number as a component of a vector. -/
def componentText (x : Single) : String :=
  if x.isNaN then "0"
  else if x.isInfinite then x.signText ++ "3.402823466e+38"
  else if x.isZero then "0"
  else x.positional

/-- A number as a literal of its own, which has a point or an exponent and a
suffix. -/
def floatLiteral (x : Single) : String :=
  let text := componentText x
  if text.toList.any fun c => c == '.' || c == 'e' || c == 'E' then text ++ "f"
  else text ++ ".0f"

/-- Components with commas between them. -/
def componentList (xs : List Single) : String := ", ".intercalate (xs.map componentText)

/-- A vector literal of the named type. -/
def vectorLiteral (type : String) (xs : List Single) : String :=
  type ++ "( " ++ componentList xs ++ " )"

/-! ### Vectors -/

/-- A vector of two components. -/
structure Vec2 where
  x : Single
  y : Single
  deriving DecidableEq, Repr, Inhabited

/-- A vector of three components. -/
structure Vec3 where
  x : Single
  y : Single
  z : Single
  deriving DecidableEq, Repr, Inhabited

/-- A vector of four components. -/
structure Vec4 where
  x : Single
  y : Single
  z : Single
  w : Single
  deriving DecidableEq, Repr, Inhabited

/-- The number `0`. -/
def zero : Single := .zero

/-- The number `1`. -/
def one : Single := .ofInt 1

/-- The two components in order. -/
def Vec2.toList (v : Vec2) : List Single := [v.x, v.y]

/-- The three components in order. -/
def Vec3.toList (v : Vec3) : List Single := [v.x, v.y, v.z]

/-- The four components in order. -/
def Vec4.toList (v : Vec4) : List Single := [v.x, v.y, v.z, v.w]

/-- The vector with `1` everywhere. -/
def Vec4.ones : Vec4 := ⟨one, one, one, one⟩

/-- The vector with `0` everywhere. -/
def Vec4.zeros : Vec4 := ⟨zero, zero, zero, zero⟩

/-- How a message names a vector that was expected. -/
def vectorText (n : Nat) : String := "a sequence of " ++ toString n ++ " f32values"

/-- A vector is saved as the list of its components. -/
def Vec2.read : Json → Except Mismatch Vec2
  | .array [x, y] => do return ⟨← x.readSingle, ← y.readSingle⟩
  | j => .error (j.misfit Json.readSingle 2 (vectorText 2))

/-- Reads a list of three numbers. -/
def Vec3.read : Json → Except Mismatch Vec3
  | .array [x, y, z] => do return ⟨← x.readSingle, ← y.readSingle, ← z.readSingle⟩
  | j => .error (j.misfit Json.readSingle 3 (vectorText 3))

/-- Reads a list of four numbers. -/
def Vec4.read : Json → Except Mismatch Vec4
  | .array [x, y, z, w] => do
    return ⟨← x.readSingle, ← y.readSingle, ← z.readSingle, ← w.readSingle⟩
  | j => .error (j.misfit Json.readSingle 4 (vectorText 4))

/-- A vector of two components in a document. -/
def Vec2.write (v : Vec2) : Json := .ofList .ofSingle v.toList

/-- A vector of three components in a document. -/
def Vec3.write (v : Vec3) : Json := .ofList .ofSingle v.toList

/-- A vector of four components in a document. -/
def Vec4.write (v : Vec4) : Json := .ofList .ofSingle v.toList

/-! ### Constants -/

/-- A value known when the program is written. -/
inductive Constant where
  | bool (b : Bool)
  | int (n : Int32)
  | float (x : Single)
  | vector2 (v : Vec2)
  | vector3 (v : Vec3)
  | vector4 (v : Vec4)
  | color (v : Vec4)
  deriving DecidableEq, Repr

instance : Inhabited Constant := ⟨.float zero⟩

namespace Constant

/-- The type of a constant. -/
def type : Constant → ShaderType
  | .bool _ => .bool
  | .int _ => .int
  | .float _ => .float
  | .vector2 _ => .vector2
  | .vector3 _ => .vector3
  | .vector4 _ => .vector4
  | .color _ => .color

/-- The constant that stands for nothing given. A colour is opaque. -/
def zero? : ShaderType → Option Constant
  | .bool => some (.bool false)
  | .int => some (.int 0)
  | .float => some (.float zero)
  | .vector2 => some (.vector2 ⟨zero, zero⟩)
  | .vector3 => some (.vector3 ⟨zero, zero, zero⟩)
  | .vector4 => some (.vector4 .zeros)
  | .color => some (.color ⟨zero, zero, zero, one⟩)
  | _ => none

/-- The components of a constant; truth is `1` or `0`. -/
def components : Constant → List Single
  | .bool b => [if b then one else zero]
  | .int n => [.ofInt n.toInt]
  | .float x => [x]
  | .vector2 v => v.toList
  | .vector3 v => v.toList
  | .vector4 v => v.toList
  | .color v => v.toList

/-- The constant in program text. -/
def literal (types : TypeTable) : Constant → String
  | .bool b => if b then "true" else "false"
  | .int n => toString n.toInt
  | .float x => floatLiteral x
  | c => vectorLiteral (types.name c.type) c.components

/-- A constant in the annotation of a parameter. -/
def annotation (c : Constant) : String := componentList c.components

/-- The name of a constant's kind in documents. -/
def kind : Constant → String
  | .bool _ => "Bool"
  | .int _ => "Int"
  | .float _ => "Float"
  | .vector2 _ => "Vector2"
  | .vector3 _ => "Vector3"
  | .vector4 _ => "Vector4"
  | .color _ => "Color"

/-- The value of a constant in a document, without its kind. -/
def content : Constant → Json
  | .bool b => .bool b
  | .int n => .int n.toInt
  | .float x => .ofSingle x
  | .vector2 v => v.write
  | .vector3 v => v.write
  | .vector4 v => v.write
  | .color v => v.write

/-- The names of the kinds. -/
def kinds : List String := ["Bool", "Int", "Float", "Vector2", "Vector3", "Vector4", "Color"]

/-- A constant of the named kind. -/
def ofContent (kind : String) (value : Json) : Except Mismatch Constant :=
  match kind with
  | "Bool" => value.readBool.map .bool
  | "Int" => value.readInt32.map .int
  | "Float" => value.readSingle.map .float
  | "Vector2" => (Vec2.read value).map .vector2
  | "Vector3" => (Vec3.read value).map .vector3
  | "Vector4" => (Vec4.read value).map .vector4
  | "Color" => (Vec4.read value).map .color
  | _ => .error (.unknownName kind kinds)

/-- A constant from a document: its kind and its value, named or listed. -/
def read : Json → Except Mismatch Constant
  | .object fields => do
    let some kind := Dictionary.get? fields "__class" | .error (.missingMember "__class")
    let kind ← kind.readNameOf kinds
    let some value := Dictionary.get? fields "value" | .error (.missingMember "value")
    ofContent kind value
  | .array [] => .error (.length 0 expected)
  | .array [kind] => do
    let _ ← kind.readNameOf kinds
    .error (.length 1 expected)
  | .array (kind :: value :: rest) => do
    let c ← ofContent (← kind.readNameOf kinds) value
    if rest.isEmpty then return c
    else .error (.surplus (rest.length + 2) 2)
  | j => .error (.sort j expected)
where
  /-- How a message names a constant that was expected. -/
  expected : String := "adjacently tagged enum ConstantValue"

/-- A constant in a document. -/
def write (c : Constant) : Json := .record
  [("__class", some (.string c.kind)), ("value", some c.content)]

end Constant

end MaterialGraph
