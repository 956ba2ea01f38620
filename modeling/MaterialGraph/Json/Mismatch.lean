import MaterialGraph.Json.Basic
import MaterialGraph.Number.Decimal

/-!
# Values of the wrong shape

Why a document value cannot be read as what is expected in its place.
-/

namespace MaterialGraph

/-- Why a value cannot be read. -/
inductive Mismatch where
  /-- It is of another sort than expected. -/
  | sort (found : Json) (expected : String)
  /-- It is an integer beyond the bounds of what is expected. -/
  | bounds (found : Int) (expected : String)
  /-- It is a list of the wrong length. -/
  | length (found : Nat) (expected : String)
  /-- It is a list that goes on after the `wanted` items that are expected. -/
  | surplus (found wanted : Nat)
  /-- It is a name that the enumeration does not have. -/
  | unknownName (found : String) (names : List String)
  /-- It is an object that should have had one member. -/
  | manyMembers
  /-- It is an object without a member that must be there. -/
  | missingMember (key : String)
  /-- It is a text that does not write an identifier. -/
  | identifier (reason : String)
  deriving Inhabited

namespace Mismatch

/-! ### Quoting -/

/-- A character between the quotes of a message. -/
def quoteChar (c : Char) : List Char :=
  if c = '"' ∨ c = '\\' then ['\\', c]
  else if c = '\n' then ['\\', 'n']
  else if c = '\r' then ['\\', 'r']
  else if c = '\t' then ['\\', 't']
  else if c.toNat = 0 then ['\\', '0']
  else if c.toNat < 0x20 ∨ 0x7F ≤ c.toNat ∧ c.toNat < 0xA0 then
    "\\u\x7b".toList ++ Nat.toDigits 16 c.toNat ++ ['\x7d']
  else [c]

/-- A text between quotes in a message. -/
def quote (s : String) : String :=
  String.ofList ('"' :: s.toList.flatMap quoteChar ++ ['"'])

/-- A text between grave accents in a message. -/
def mark (s : String) : String := "`" ++ s ++ "`"

/-! ### Wording -/

/-- What a value is, in a message. -/
def describe : Json → String
  | .null => "null"
  | .bool b => "boolean " ++ mark (if b then "true" else "false")
  | .int n => "integer " ++ mark (toString n)
  | .float x => "floating point " ++ mark x.compact
  | .string s => "string " ++ quote s
  | .array _ => "sequence"
  | .object _ => "map"

/-- The names to choose from, in a message. -/
def choice : List String → String
  | [] => "there are no variants"
  | [a] => "expected " ++ mark a
  | [a, b] => "expected " ++ mark a ++ " or " ++ mark b
  | names => "expected one of " ++ ", ".intercalate (names.map mark)

/-- What a mismatch says. -/
def text : Mismatch → String
  | .sort found expected => "invalid type: " ++ describe found ++ ", expected " ++ expected
  | .bounds found expected =>
    "invalid value: integer " ++ mark (toString found) ++ ", expected " ++ expected
  | .length found expected => "invalid length " ++ toString found ++ ", expected " ++ expected
  | .surplus found _ => "invalid length " ++ toString found ++ ", expected fewer elements in array"
  | .unknownName found names => "unknown variant " ++ mark found ++ ", " ++ choice names
  | .manyMembers => "invalid value: map, expected map with a single key"
  | .missingMember key => "missing field " ++ mark key
  | .identifier reason => "UUID parsing failed: " ++ reason

end Mismatch

end MaterialGraph
