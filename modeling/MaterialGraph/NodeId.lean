import MaterialGraph.Json.Record

/-!
# Node identifiers

An identifier is a 128 bit number, written as thirty-two hexadecimal digits in
five groups. It is read from that form, without the hyphens, in braces, or after
the resource prefix; digits and prefix may be in either case.
-/

namespace MaterialGraph

/-- The identifier of a node. -/
structure NodeId where
  value : BitVec 128
  deriving DecidableEq, Repr

namespace NodeId

/-- The identifier that names no node. -/
def nil : NodeId := ⟨0⟩

instance : Inhabited NodeId := ⟨nil⟩

/-- Whether an identifier names no node. -/
def isNil (id : NodeId) : Bool := id == nil

/-! ### Writing -/

/-- The hexadecimal digits, the most significant first. -/
def digits (id : NodeId) : List Nat :=
  (List.range 32).map fun i => id.value.toNat >>> (4 * (31 - i)) % 16

/-- A hexadecimal digit in lower case. -/
def digitChar (d : Nat) : Char :=
  Char.ofNat (if d < 10 then '0'.toNat + d else 'a'.toNat + (d - 10))

/-- Thirty-two digits in groups of 8, 4, 4, 4 and 12. -/
def hyphenated (ds : List Char) : List Char :=
  ds.take 8 ++ '-' :: (ds.drop 8).take 4 ++ '-' :: (ds.drop 12).take 4 ++
    '-' :: (ds.drop 16).take 4 ++ '-' :: ds.drop 20

/-- The canonical text. -/
def text (id : NodeId) : String := String.ofList (hyphenated (id.digits.map digitChar))

/-! ### Reading -/

/-- The value of a hexadecimal digit in either case. -/
def digitValue? (c : Char) : Option Nat :=
  if '0' ≤ c ∧ c ≤ '9' then some (c.toNat - '0'.toNat)
  else if 'a' ≤ c ∧ c ≤ 'f' then some (c.toNat - 'a'.toNat + 10)
  else if 'A' ≤ c ∧ c ≤ 'F' then some (c.toNat - 'A'.toNat + 10)
  else none

/-- The identifier of thirty-two hexadecimal digits. -/
def ofDigits? (cs : List Char) : Option NodeId := do
  guard (cs.length = 32)
  let ds ← cs.mapM digitValue?
  return ⟨BitVec.ofNat 128 (ds.foldl (fun n d => n * 16 + d) 0)⟩

/-- The digits of the grouped form. -/
def ungroup? (cs : List Char) : Option (List Char) := do
  guard (cs.length = 36)
  guard ([8, 13, 18, 23].all fun i => cs[i]? == some '-')
  return cs.take 8 ++ (cs.drop 9).take 4 ++ (cs.drop 14).take 4 ++ (cs.drop 19).take 4 ++
    cs.drop 24

/-- A text without its wrapping, which is a pair of braces around it or the resource
prefix before it, and the number of characters of the wrapping that come first. -/
def unwrap (cs : List Char) : Nat × List Char :=
  if cs.head? = some '\x7b' ∧ cs.getLast? = some '\x7d' then (1, cs.tail.dropLast)
  else if (cs.take 9).map Char.toLower = "urn:uuid:".toList then (9, cs.drop 9)
  else (0, cs)

/-- The identifier that a text writes in one of its forms. -/
def ofText? (text : String) : Option NodeId :=
  let cs := text.toList
  if cs.length = 32 then ofDigits? cs
  else (ungroup? (unwrap cs).2).bind ofDigits?

/-- What is wrong with a text that does not write an identifier. -/
inductive Malformation where
  /-- A character is neither a digit nor a hyphen; places count from one. -/
  | character (c : Char) (place : Nat)
  /-- There are no hyphens, and the number of digits is wrong. -/
  | length (found : Nat)
  /-- There are more or fewer than five groups. -/
  | groups (found : Nat)
  /-- A group has the wrong length. -/
  | group (index expected found : Nat)
  deriving DecidableEq, Repr

/-- The wording of a malformation. -/
def Malformation.text : Malformation → String
  | .character c place =>
    "invalid character: expected an optional prefix of `urn:uuid:` followed by [0-9a-fA-F-], found "
      ++ "`" ++ c.toString ++ "` at " ++ toString place
  | .length found =>
    "invalid length: expected length 32 for simple format, found " ++ toString found
  | .groups found => "invalid group count: expected 5, found " ++ toString found
  | .group index expected found =>
    "invalid group length in group " ++ toString index ++ ": expected " ++ toString expected ++
      ", found " ++ toString found

/-- Where the first four groups start, and their lengths. -/
def leadingGroups : List (Nat × Nat) := [(0, 8), (9, 4), (14, 4), (19, 4)]

/-- The first group that does not end where it should, given the places of the four
hyphens; without one it is the last group, of which `length` tells the end. -/
def wrongGroup (hyphens : List Nat) (length : Nat) : Malformation :=
  let ends := (leadingGroups.zip hyphens).zipIdx
  match ends.find? fun (((start, size), hyphen), _) => hyphen ≠ start + size with
  | some (((start, size), hyphen), index) => .group index size (hyphen - start)
  | none => .group 4 12 (length - 24)

/-- What is wrong with a text that does not write an identifier: a character, or else
the number of digits or groups, or else the length of a group. -/
def malformation (text : String) : Malformation :=
  let cs := text.toList
  let (offset, body) := unwrap cs
  match body.zipIdx.find? fun (c, _) => c ≠ '-' ∧ (digitValue? c).isNone with
  | some (c, i) => .character c (offset + i + 1)
  | none =>
    let hyphens := (body.zipIdx.filter (·.1 = '-')).map (·.2)
    if hyphens = [] ∧ offset = 0 then .length cs.length
    else if hyphens.length ≠ 4 then .groups (hyphens.length + 1)
    else wrongGroup hyphens cs.length

/-- Reads an identifier that is written as text. -/
def read : Json → Except Mismatch NodeId
  | .string s => match ofText? s with
    | some id => .ok id
    | none => .error (.identifier (malformation s).text)
  | j => .error (.sort j "a UUID string")

/-- An identifier in a document. -/
def write (id : NodeId) : Json := .string id.text

/-- An identifier in a document, left out when it names no node. -/
def nonNil (id : NodeId) : Option Json := if id.isNil then none else some id.write

end NodeId

end MaterialGraph
