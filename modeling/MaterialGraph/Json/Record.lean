import MaterialGraph.Json.Mismatch

/-!
# Records, names and scalars in documents

A record is saved as an object, or as the list of its fields in order. A field
that is missing takes its default if it has one; a list must not be longer than
the record, and an object may hold keys that the record does not know. A value
of an enumeration is saved as its name.

`RecordReader` reads the fields one after the other, from either form. A field
that cannot be read is noted and reading goes on: of several such fields, the one
that comes first in the document is the reason why there is no record. A record may
take over the fields of a smaller one; these it reads last.

## Main definitions

* `RecordReader`, `field`, `requiredField`, `merged` — reading the fields of a record.
* `Json.readRecord`, `Json.readNamedRecord` — a record from a value.
* `Json.readName` — a value of an enumeration.
* `Json.record` — writing a record, absent fields left out.
-/

namespace MaterialGraph

open Number

/-! ### Fields -/

/-- Where the fields of a record are found. -/
inductive RecordSource where
  /-- By name, in an object. -/
  | named (fields : Fields)
  /-- By position, in what is left of a list. -/
  | listed (items : List Json)

/-- How far the reading of a record is. -/
structure RecordState where
  /-- Where the next fields are found. -/
  source : RecordSource
  /-- How many fields have been read. -/
  count : Nat := 0
  /-- The first field of the document that cannot be read, and why. -/
  failure : Option (String × Mismatch) := none
  /-- The first field that is missing and has no default, and its place. -/
  missing : Option (String × Nat) := none

namespace RecordState

/-- The value of the next field, if it is there. -/
def take (s : RecordState) (key : String) : Option Json × RecordState :=
  match s.source with
  | .named fields => (Dictionary.get? fields key, { s with count := s.count + 1 })
  | .listed [] => (none, { s with count := s.count + 1 })
  | .listed (item :: items) =>
    (some item, { s with source := .listed items, count := s.count + 1 })

/-- Notes a field that cannot be read. The members of an object come in the order of
their keys, the items of a list in the order of the fields. -/
def fail (s : RecordState) (key : String) (m : Mismatch) : RecordState :=
  match s.source, s.failure with
  | _, none => { s with failure := some (key, m) }
  | .named _, some (first, _) => if key < first then { s with failure := some (key, m) } else s
  | .listed _, some _ => s

/-- Notes a field that is missing. -/
def lack (s : RecordState) (key : String) : RecordState :=
  { s with missing := s.missing <|> some (key, s.count - 1) }

end RecordState

/-- A reader of some of a record's fields. -/
abbrev RecordReader := StateM RecordState

namespace RecordReader

variable {α : Type}

/-- A field with a default. -/
def field (key : String) (read : Json → Except Mismatch α) (fallback : α) : RecordReader α :=
  fun s =>
    match s.take key with
    | (none, s) => (fallback, s)
    | (some value, s) =>
      match read value with
      | .ok a => (a, s)
      | .error m => (fallback, s.fail key m)

/-- A field that must be there. -/
def requiredField [Inhabited α] (key : String) (read : Json → Except Mismatch α) :
    RecordReader α := fun s =>
  match s.take key with
  | (none, s) => (default, s.lack key)
  | (some value, s) =>
    match read value with
    | .ok a => (a, s)
    | .error m => (default, s.fail key m)

/-- A field of a smaller record as the larger one hands it on: a name that is the only
key of an object may then stand before an empty object. -/
def handedOn : Json → Json
  | .object [(key, .object [])] => .object [(key, .null)]
  | j => j

/-- What a smaller record says about a list that is too long. -/
def mergedMismatch : Mismatch → Mismatch
  | .surplus found wanted =>
    .length found (toString wanted ++ (if wanted = 1 then " element" else " elements") ++
      " in sequence")
  | m => m

/-- The fields of a smaller record among those of a larger one, which has read its own
fields before: a failure among those comes first. -/
def merged (reader : RecordReader α) : RecordReader α := fun s =>
  let source := match s.source with
    | .named fields => .named (fields.map fun (key, value) => (key, handedOn value))
    | .listed items => .listed items
  match reader { s with source, failure := none } with
  | (a, t) =>
    (a, { t with failure := s.failure <|> t.failure.map fun (key, m) => (key, mergedMismatch m) })

/-- The length of a record as a message states it. -/
def lengthText (expected : String) (count : Nat) : String :=
  expected ++ " with " ++ toString count ++ (if count = 1 then " element" else " elements")

/-- The value that is read, unless a field fails or is missing, or items are left over. -/
def result (reader : RecordReader α) (expected : String) (source : RecordSource) :
    Except Mismatch α :=
  match reader { source } with
  | (_, { failure := some (_, m), .. }) => .error m
  | (_, { source := .named _, missing := some (key, _), .. }) => .error (.missingMember key)
  | (_, { source := .listed _, missing := some (_, place), count, .. }) =>
    .error (.length place (lengthText expected count))
  | (_, { source := .listed (item :: items), count, .. }) =>
    .error (.surplus (count + (item :: items).length) count)
  | (a, _) => .ok a

end RecordReader

namespace Json

variable {α : Type}

/-! ### Records and names -/

/-- A record from an object or from a list that it uses up. -/
def readRecord (expected : String) (reader : RecordReader α) : Json → Except Mismatch α
  | .object fields => reader.result expected (.named fields)
  | .array items => reader.result expected (.listed items)
  | j => .error (.sort j expected)

/-- A record from an object only. -/
def readNamedRecord (expected : String) (reader : RecordReader α) : Json → Except Mismatch α
  | .object fields => reader.result expected (.named fields)
  | j => .error (.sort j expected)

/-- One of some names: a text, or an object with that one key and no value. -/
def readNameOf (names : List String) : Json → Except Mismatch String
  | .string s => if s ∈ names then .ok s else .error (.unknownName s names)
  | .object [(key, value)] =>
    if key ∉ names then .error (.unknownName key names)
    else if value.isNull then .ok key
    else .error (.sort value "unit")
  | .object _ => .error .manyMembers
  | j => .error (.sort j "string or map")

/-- A value of an enumeration, found by its name. -/
def readName (all : List α) (name : α → String) (j : Json) : Except Mismatch α := do
  let s ← j.readNameOf (all.map name)
  match all.find? (name · == s) with
  | some a => .ok a
  | none => .error (.unknownName s (all.map name))

/-! ### Scalars -/

/-- A value of any shape. -/
def readAny (j : Json) : Except Mismatch Json := .ok j

/-- Reads a text. -/
def readString : Json → Except Mismatch String
  | .string s => .ok s
  | j => .error (.sort j "a string")

/-- Reads a truth value. -/
def readBool : Json → Except Mismatch Bool
  | .bool b => .ok b
  | j => .error (.sort j "a boolean")

/-- Reads a whole number within bounds. -/
def readInt (expected : String) (low high : Int) : Json → Except Mismatch Int
  | .int n => if low ≤ n ∧ n ≤ high then .ok n else .error (.bounds n expected)
  | j => .error (.sort j expected)

/-- Reads a natural number of thirty-two bits. -/
def readUInt32 (j : Json) : Except Mismatch UInt32 :=
  (j.readInt "u32" 0 (UInt32.size - 1)).map (.ofNat ·.toNat)

/-- Reads a natural number of eight bits. -/
def readUInt8 (j : Json) : Except Mismatch UInt8 :=
  (j.readInt "u8" 0 (UInt8.size - 1)).map (.ofNat ·.toNat)

/-- Reads a whole number of thirty-two bits. -/
def readInt32 (j : Json) : Except Mismatch Int32 :=
  (j.readInt "i32" Int32.minValue.toInt Int32.maxValue.toInt).map .ofInt

/-- A number, rounded to thirty-two bits. -/
def readSingle : Json → Except Mismatch Single
  | .int n => .ok (.ofInt n)
  | .float x => .ok x.toSingle
  | j => .error (.sort j "f32")

/-! ### Compounds -/

/-- A value that may be absent. -/
def readOption (read : Json → Except Mismatch α) : Json → Except Mismatch (Option α)
  | .null => .ok none
  | j => (read j).map some

/-- Reads a list of values. -/
def readList (read : Json → Except Mismatch α) : Json → Except Mismatch (List α)
  | .array items => items.mapM read
  | j => .error (.sort j "a sequence")

/-- Why a value is not a list of `n` values: one of the first `n` cannot be read, or
the list has another length. -/
def misfit (read : Json → Except Mismatch α) (n : Nat) (expected : String) : Json → Mismatch
  | .array items =>
    match (items.take n).mapM read with
    | .error m => m
    | .ok _ =>
      if items.length < n then .length items.length expected
      else .surplus items.length n
  | j => .sort j expected

/-- A pair of values, saved as a list of two. -/
def readPair (read : Json → Except Mismatch α) : Json → Except Mismatch (α × α)
  | .array [a, b] => do return (← read a, ← read b)
  | j => .error (j.misfit read 2 "a tuple of size 2")

/-- Named values, in the order of their names. -/
def readMap (read : Json → Except Mismatch α) : Json → Except Mismatch (Dictionary α)
  | .object fields => fields.mapM fun (key, value) => (read value).map (key, ·)
  | j => .error (.sort j "a map")

/-! ### Writing -/

/-- A record as an object, without the fields that are left out. -/
def record (fields : List (String × Option Json)) : Json :=
  .object (Dictionary.ofList (fields.filterMap fun (key, value) => value.map (key, ·)))

/-- A text, left out when empty. -/
def nonEmpty (s : String) : Option Json := if s.isEmpty then none else some (.string s)

/-- A truth value, left out when false. -/
def whenTrue (b : Bool) : Option Json := if b then some (.bool true) else none

/-- A value, left out when absent. -/
def nonNull (j : Json) : Option Json := if j.isNull then none else some j

/-- A finite number; the others have no form in a document. -/
def ofSingle (x : Single) : Json := if x.isFinite then .float x.toDouble else .null

/-- A list of values in a document. -/
def ofList (write : α → Json) (xs : List α) : Json := .array (xs.map write)

end Json

end MaterialGraph
