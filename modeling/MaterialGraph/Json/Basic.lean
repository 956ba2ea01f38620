import MaterialGraph.Dictionary
import MaterialGraph.Number.Binary

/-!
# Document values

Documents are JSON. Integers and other numbers are kept apart, since a version
`1.0` is refused where `1` is accepted. The members of an object form a
dictionary.
-/

namespace MaterialGraph

open Number (Double)

/-- A document value. -/
inductive Json where
  /-- The absent value. -/
  | null
  | bool (b : Bool)
  /-- A number written without point and exponent, within sixty-four bits. -/
  | int (n : Int)
  /-- Any other number. -/
  | float (x : Double)
  | string (s : String)
  | array (items : List Json)
  /-- Named values. -/
  | object (fields : List (String × Json))
  deriving Repr, Inhabited

/-- The members of an object. -/
abbrev Fields := Dictionary Json

namespace Json

/-- Whether a value is null. -/
def isNull : Json → Bool
  | .null => true
  | _ => false

/-- The member of an object; other values have none. -/
def get? : Json → String → Option Json
  | .object fields, key => Dictionary.get? fields key
  | _, _ => none

end Json

end MaterialGraph
