import MaterialGraph.Text.Blank

/-!
# Identifiers and the shape of code

Names that users type become identifiers of the generated program in two ways:
`Identifier.ofText` keeps the letters and digits and starts every word with a
capital, `Identifier.screaming` writes the words in capitals with single
underscores between them. The second half decides, from its text alone, whether
a piece of code is a plain reference and whether it can stand as an operand
without parentheses.

## Main definitions

* `Identifier.ofText`, `Identifier.screaming` — the two spellings.
* `isIdentifier` — a letter or underscore, then letters, digits, underscores.
* `isReference` — an identifier or a chain of member accesses.
* `isAtomic` — code that binds tighter than every operator.
* `declaredName?` — the name that a function's source text declares.
-/

namespace MaterialGraph.Text

/-! ### Character classes -/

/-- Letters, digits and the underscore. -/
def isWordChar (c : Char) : Bool := c.isAlphanum || c == '_'

/-- Characters of a reference: those of a word, and the point of a member access. -/
def isPathChar (c : Char) : Bool := isWordChar c || c == '.'

/-! ### From user text to identifiers -/

namespace Identifier

/-- The letters and digits of a text, each run started with a capital. The flag
says whether the next letter starts a run. -/
def capitalized : Bool → List Char → List Char
  | _, [] => []
  | start, c :: cs =>
    if c.isAlphanum then (if start then c.toUpper else c) :: capitalized false cs
    else capitalized true cs

@[simp] theorem capitalized_nil (start : Bool) : capitalized start [] = [] := rfl

@[simp] theorem capitalized_cons (start : Bool) (c : Char) (cs : List Char) :
    capitalized start (c :: cs) =
      if c.isAlphanum then (if start then c.toUpper else c) :: capitalized false cs
      else capitalized true cs := rfl

/-- An identifier may not start with a digit, an underscore stands in front of one. -/
def guardDigit : List Char → List Char
  | [] => []
  | c :: cs => if c.isDigit then '_' :: c :: cs else c :: cs

/-- The identifier that a user's text stands for: `tint amount 2` gives
`TintAmount2` and `2 sided` gives `_2Sided`. It is empty when the text has no
ASCII letter or digit. -/
def ofText (text : String) : String :=
  String.ofList (guardDigit (capitalized true text.toList))

/-- Whether a word divider may follow what has been written so far, given back to
front: something has been written, and it does not end in a divider. -/
def canDivide : List Char → Bool
  | [] => false
  | c :: _ => c != '_'

/-- One character of a screaming identifier added to `acc`, the part written so
far, back to front. A capital starts a word, and any run of other characters
divides two words. -/
def screamStep (acc : List Char) (c : Char) : List Char :=
  let acc := if c.isUpper && canDivide acc then '_' :: acc else acc
  if c.isAlphanum then c.toUpper :: acc
  else if canDivide acc then '_' :: acc
  else acc

/-- The words of a text in capitals, single underscores between them: `UseDetail`
and `use detail` both give `USE_DETAIL`. -/
def screaming (text : String) : String :=
  String.ofList ((text.toList.foldl screamStep []).dropWhile (· == '_')).reverse

end Identifier

/-- A letter or an underscore, followed by letters, digits and underscores. -/
def isIdentifier (text : String) : Bool :=
  match text.toList with
  | [] => false
  | c :: cs => (c.isAlpha || c == '_') && cs.all isWordChar

/-! ### The shape of code -/

/-- Code that only names something: `l_0`, `i.vNormalWs`. -/
def isReference (code : String) : Bool :=
  match code.toList with
  | [] => false
  | c :: cs => c != '.' && (c :: cs).all isPathChar

/-- What follows the parenthesis that brings the nesting back to zero, when
`depth` parentheses are open before the text. -/
def afterClosing : Nat → List Char → Option (List Char)
  | _, [] => none
  | depth, '(' :: cs => afterClosing (depth + 1) cs
  | depth, ')' :: cs => if depth ≤ 1 then some cs else afterClosing (depth - 1) cs
  | depth, _ :: cs => afterClosing depth cs

/-- A call head: a path, perhaps with a scope such as `ShadingModel::Shade`. -/
def isCallHead (cs : List Char) : Bool :=
  !cs.isEmpty && cs.all fun c => isPathChar c || c == ':'

/-- One call with members read off its result: a head, a parenthesised part, and
after its closing parenthesis nothing but a path. -/
def isCall (cs : List Char) : Bool :=
  isCallHead (cs.takeWhile (· != '(')) &&
    match afterClosing 0 (cs.dropWhile (· != '(')) with
    | some rest => rest.all isPathChar
    | none => false

/-- Code that can be an operand as it stands: a path, a number or a single call. -/
def isAtomic (code : String) : Bool :=
  let cs := trim code.toList
  !cs.isEmpty && (cs.all isPathChar || isCall cs)

/-- The name declared by a function's source text: the last word before its first
parenthesis, if that is an identifier. -/
def declaredName? (body : String) : Option String :=
  let cs := body.toList
  if cs.contains '(' then
    match lastWord? (cs.takeWhile (· != '(')) with
    | some word =>
      let name := String.ofList word
      if isIdentifier name then some name else none
    | none => none
  else none

end MaterialGraph.Text
