/-!
# Blank characters, trimming and lines

White space means the Unicode property `White_Space`, twenty-five code points in
ten ranges. Texts are handled as lists of characters, so that every function
here is a short recursion or a composition of list operations.
-/

namespace MaterialGraph.Text

/-! ### The property -/

/-- The code points of `White_Space`, as inclusive ranges in increasing order. -/
def blankRanges : List (Nat × Nat) :=
  [(0x09, 0x0D), (0x20, 0x20), (0x85, 0x85), (0xA0, 0xA0), (0x1680, 0x1680),
    (0x2000, 0x200A), (0x2028, 0x2029), (0x202F, 0x202F), (0x205F, 0x205F), (0x3000, 0x3000)]

/-- A character is blank when its code point lies in one of the ranges. -/
def isBlank (c : Char) : Bool :=
  blankRanges.any fun r => r.1 ≤ c.toNat && c.toNat ≤ r.2

/-! ### Trimming -/

/-- A text without the blanks before it. -/
def trimStart (cs : List Char) : List Char := cs.dropWhile isBlank

/-- A text without the blanks behind it. -/
def trimEnd (cs : List Char) : List Char := (cs.reverse.dropWhile isBlank).reverse

/-- A text without the blanks around it. -/
def trim (cs : List Char) : List Char := trimEnd (trimStart cs)

/-- The last run of non-blank characters, absent in a text of blanks alone. -/
def lastWord? (cs : List Char) : Option (List Char) :=
  match ((trimEnd cs).reverse.takeWhile (!isBlank ·)).reverse with
  | [] => none
  | word => some word

/-! ### Lines -/

/-- The line held back to front in `acc`, less one carriage return at its end. -/
def closeLine : List Char → List Char
  | '\r' :: acc => acc.reverse
  | acc => acc.reverse

/-- `linesFrom acc cs` cuts `cs` into lines when the line being read already
holds `acc`, back to front. -/
def linesFrom : List Char → List Char → List (List Char)
  | [], [] => []
  | acc, [] => [acc.reverse]
  | acc, '\n' :: cs => closeLine acc :: linesFrom [] cs
  | acc, c :: cs => linesFrom (c :: acc) cs

/-- The lines of a text. A line feed ends a line, a carriage return right before
it belongs to the ending, and what follows the last line feed is a line of its
own unless it is empty. -/
def lines (cs : List Char) : List (List Char) := linesFrom [] cs

/-! ### Joining and indenting -/

/-- Lines put together again, one line feed between two. -/
def joinLines (ls : List String) : String := "\n".intercalate ls

/-- Lines moved to the right by `margin` and joined; an empty line stays empty. -/
def indentLines (margin : String) (ls : List String) : String :=
  joinLines (ls.map fun l => if l.isEmpty then l else margin ++ l)

end MaterialGraph.Text
