import MaterialGraph.Json.Basic
import MaterialGraph.Number.Decimal

/-!
# Values as text

The compact form: no blanks, keys in their order, numbers by their shortest
digits, and in texts only quotes, backslashes and control characters escaped.
-/

namespace MaterialGraph.Json

/-- The two lower-case hexadecimal digits of a number below 256. -/
def hexByte (n : Nat) : List Char :=
  let digit (d : Nat) : Char := (Nat.toDigits 16 (d % 16)).headD '0'
  [digit (n / 16), digit n]

/-- One character as it stands inside quotes. -/
def escapeChar (c : Char) : List Char :=
  if c = '"' then ['\\', '"']
  else if c = '\\' then ['\\', '\\']
  else if c = '\n' then ['\\', 'n']
  else if c = '\r' then ['\\', 'r']
  else if c = '\t' then ['\\', 't']
  else if c.toNat = 0x08 then ['\\', 'b']
  else if c.toNat = 0x0C then ['\\', 'f']
  else if c.toNat < 0x20 then ['\\', 'u', '0', '0'] ++ hexByte c.toNat
  else [c]

/-- A text in quotes. -/
def escape (s : String) : String :=
  String.ofList ('"' :: s.toList.flatMap escapeChar ++ ['"'])

mutual

/-- The compact text of a value. -/
def render : Json → String
  | .null => "null"
  | .bool b => if b then "true" else "false"
  | .int n => toString n
  | .float x => x.compact
  | .string s => escape s
  | .array items => "[" ++ ",".intercalate (renderItems items) ++ "]"
  | .object fields => "\x7b" ++ ",".intercalate (renderFields fields) ++ "\x7d"

/-- The items of a list. -/
def renderItems : List Json → List String
  | [] => []
  | item :: items => render item :: renderItems items

/-- The members of an object. -/
def renderFields : List (String × Json) → List String
  | [] => []
  | (key, value) :: fields => (escape key ++ ":" ++ render value) :: renderFields fields

end

end MaterialGraph.Json
