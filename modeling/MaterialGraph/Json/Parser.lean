import MaterialGraph.Json.Basic
import MaterialGraph.Number.Decimal

/-!
# Values from text

A recursive-descent reader over the list of remaining characters. Every function
returns what it read together with what is left, and `none` for text that is not
JSON. Values nest at most 127 deep, a number must not exceed every double, and
an escaped surrogate must come as a pair.
-/

namespace MaterialGraph.Json

open Number

/-- The blanks that JSON allows between tokens. -/
def isSpace (c : Char) : Bool := c == ' ' || c == '\n' || c == '\t' || c == '\r'

/-- The text from its first token on. -/
def skipSpace (cs : List Char) : List Char := cs.dropWhile isSpace

/-! ### Strings -/

/-- The value of a hexadecimal digit. -/
def hexValue? (c : Char) : Option Nat :=
  if '0' ≤ c ∧ c ≤ '9' then some (c.toNat - '0'.toNat)
  else if 'a' ≤ c ∧ c ≤ 'f' then some (c.toNat - 'a'.toNat + 10)
  else if 'A' ≤ c ∧ c ≤ 'F' then some (c.toNat - 'A'.toNat + 10)
  else none

/-- The number written by four hexadecimal digits. -/
def hexQuad? (a b c d : Char) : Option Nat := do
  return ((← hexValue? a) * 16 + (← hexValue? b)) * 256 + (← hexValue? c) * 16 + (← hexValue? d)

/-- The character of a one-letter escape. -/
def shortEscape? (c : Char) : Option Char :=
  if c = '"' then some '"'
  else if c = '\\' then some '\\'
  else if c = '/' then some '/'
  else if c = 'b' then some '\x08'
  else if c = 'f' then some '\x0c'
  else if c = 'n' then some '\n'
  else if c = 'r' then some '\r'
  else if c = 't' then some '\t'
  else none

/-- The character of a pair of surrogates, the first in `0xD800 … 0xDBFF` and the
second in `0xDC00 … 0xDFFF`. -/
def surrogatePair? (high low : Nat) : Option Char :=
  if 0xD800 ≤ high ∧ high < 0xDC00 ∧ 0xDC00 ≤ low ∧ low < 0xE000 then
    some (Char.ofNat (0x10000 + (high - 0xD800) * 0x400 + (low - 0xDC00)))
  else none

/-- The rest of a string token: `acc` holds what was read after the opening
quote, back to front. -/
def scanString (acc : List Char) : List Char → Option (String × List Char)
  | [] => none
  | '"' :: cs => some (String.ofList acc.reverse, cs)
  | '\\' :: 'u' :: a :: b :: c :: d :: cs =>
    match hexQuad? a b c d with
    | none => none
    | some n =>
      if n < 0xD800 ∨ 0xE000 ≤ n then scanString (Char.ofNat n :: acc) cs
      else match cs with
        | '\\' :: 'u' :: e :: f :: g :: h :: cs =>
          match (hexQuad? e f g h).bind (surrogatePair? n) with
          | some c => scanString (c :: acc) cs
          | none => none
        | _ => none
  | '\\' :: c :: cs =>
    match shortEscape? c with
    | some c => scanString (c :: acc) cs
    | none => none
  | c :: cs => if c = '\\' ∨ c.toNat < 0x20 then none else scanString (c :: acc) cs

/-! ### Numbers -/

/-- The leading digits of a text, as numbers, and the rest. -/
def scanDigits (cs : List Char) : List Nat × List Char :=
  ((cs.takeWhile Char.isDigit).map fun c => c.toNat - '0'.toNat, cs.dropWhile Char.isDigit)

/-- The number that digits write. -/
def ofDigits (ds : List Nat) : Nat := ds.foldl (fun n d => n * 10 + d) 0

/-- The part before point and exponent: one zero, or digits not starting with one. -/
def scanWhole (cs : List Char) : Option (List Nat × List Char) :=
  match scanDigits cs with
  | ([], _) => none
  | (0 :: _ :: _, _) => none
  | (ds, rest) => some (ds, rest)

/-- The digits after a point, if there is a point. -/
def scanFraction : List Char → Option (Option (List Nat) × List Char)
  | '.' :: cs =>
    match scanDigits cs with
    | ([], _) => none
    | (ds, rest) => some (some ds, rest)
  | cs => some (none, cs)

/-- The digits of an exponent, after its mark and sign. -/
def scanExponentDigits (negative : Bool) (cs : List Char) : Option (Option Int × List Char) :=
  match scanDigits cs with
  | ([], _) => none
  | (ds, rest) => some (some (if negative then -(ofDigits ds : Int) else ofDigits ds), rest)

/-- The exponent of a number, if it has one. -/
def scanExponent : List Char → Option (Option Int × List Char)
  | c :: cs =>
    if c = 'e' ∨ c = 'E' then
      match cs with
      | '+' :: cs => scanExponentDigits false cs
      | '-' :: cs => scanExponentDigits true cs
      | cs => scanExponentDigits false cs
    else some (none, c :: cs)
  | [] => some (none, [])

/-- A number written without point and exponent: an integer if it fits sixty-four
bits, with or without sign. The negative zero is no integer. -/
def wholeNumber (negative : Bool) (ds : List Nat) : Option Json :=
  let n := ofDigits ds
  if negative then
    if 0 < n ∧ n ≤ 1 <<< 63 then some (.int (-(n : Int)))
    else (readDouble? true ds [] 0).map .float
  else if n ≤ maxWord then some (.int n)
  else (readDouble? false ds [] 0).map .float

/-- A number without its sign. -/
def scanUnsigned (negative : Bool) (cs : List Char) : Option (Json × List Char) := do
  let (whole, cs) ← scanWhole cs
  let (fraction, cs) ← scanFraction cs
  let (exponent, cs) ← scanExponent cs
  match fraction, exponent with
  | none, none => return (← wholeNumber negative whole, cs)
  | _, _ =>
    return (.float (← readDouble? negative whole (fraction.getD []) (exponent.getD 0)), cs)

/-- A number. -/
def scanNumber : List Char → Option (Json × List Char)
  | '-' :: cs => scanUnsigned true cs
  | cs => scanUnsigned false cs

/-! ### Values -/

/-- How many lists and objects may be open at once. -/
def maxDepth : Nat := 127

mutual

/-- A value, when `depth` more lists and objects may be opened. The first argument
exceeds the length of the text, which shrinks with every step. -/
def scanValue : Nat → (depth : Nat) → List Char → Option (Json × List Char)
  | 0, _, _ => none
  | fuel + 1, depth, cs =>
    match skipSpace cs with
    | 'n' :: 'u' :: 'l' :: 'l' :: cs => some (.null, cs)
    | 't' :: 'r' :: 'u' :: 'e' :: cs => some (.bool true, cs)
    | 'f' :: 'a' :: 'l' :: 's' :: 'e' :: cs => some (.bool false, cs)
    | '"' :: cs => (scanString [] cs).map fun (s, cs) => (.string s, cs)
    | '[' :: cs =>
      match depth with
      | 0 => none
      | depth + 1 =>
        match skipSpace cs with
        | ']' :: cs => some (.array [], cs)
        | cs => (scanItems fuel depth cs).map fun (items, cs) => (.array items, cs)
    | '\x7b' :: cs =>
      match depth with
      | 0 => none
      | depth + 1 =>
        match skipSpace cs with
        | '\x7d' :: cs => some (.object [], cs)
        | cs => (scanMembers fuel depth cs).map fun (ms, cs) => (.object (Dictionary.ofList ms), cs)
    | cs => scanNumber cs

/-- The items of a list up to its closing bracket, at least one. -/
def scanItems : Nat → (depth : Nat) → List Char → Option (List Json × List Char)
  | 0, _, _ => none
  | fuel + 1, depth, cs =>
    match scanValue fuel depth cs with
    | none => none
    | some (item, cs) =>
      match skipSpace cs with
      | ',' :: cs => (scanItems fuel depth cs).map fun (items, cs) => (item :: items, cs)
      | ']' :: cs => some ([item], cs)
      | _ => none

/-- The members of an object up to its closing brace, at least one. -/
def scanMembers : Nat → (depth : Nat) → List Char → Option (List (String × Json) × List Char)
  | 0, _, _ => none
  | fuel + 1, depth, cs =>
    match skipSpace cs with
    | '"' :: cs =>
      match scanString [] cs with
      | none => none
      | some (key, cs) =>
        match skipSpace cs with
        | ':' :: cs =>
          match scanValue fuel depth cs with
          | none => none
          | some (value, cs) =>
            match skipSpace cs with
            | ',' :: cs =>
              (scanMembers fuel depth cs).map fun (ms, cs) => ((key, value) :: ms, cs)
            | '\x7d' :: cs => some ([(key, value)], cs)
            | _ => none
        | _ => none
    | _ => none

end

/-- The value that a text writes, if it is JSON. -/
def parse? (text : String) : Option Json :=
  let cs := text.toList
  match scanValue (cs.length + 1) maxDepth cs with
  | some (value, rest) => if (skipSpace rest).isEmpty then some value else none
  | none => none

end MaterialGraph.Json
