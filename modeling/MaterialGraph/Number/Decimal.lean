import MaterialGraph.Number.Binary

/-!
# Decimal texts of binary numbers

A binary number is written with the fewest decimal digits that read back as the
same number. The reals that round to a magnitude form an interval, from half way
below to half way above, which contains its ends exactly when the magnitude is
even. For one, two, three, … digits the two neighbours of the value on that
decimal grid are tried; the first grid with a neighbour inside the interval
wins, and of two such neighbours the nearer. Texts without exponent take the
upper one in a tie, texts in documents the even one.

Reading a decimal keeps as many digits as fit a sixty-four bit word, turns them
into the nearest double and multiplies or divides once by a power of ten. For up
to fifteen digits and small exponents that is the nearest double itself.
-/

namespace MaterialGraph.Number

/-- The number `digits * 10 ^ exponent`. -/
structure Decimal where
  /-- The significant digits. -/
  digits : Nat
  /-- The power of ten that they count. -/
  exponent : Int
  deriving DecidableEq, Repr

/-! ### The shortest decimal -/

/-- Which of two neighbours on a grid stands for a value half way between them. -/
inductive Tie where
  /-- The greater one. -/
  | up
  /-- The one that is an even multiple. -/
  | even
  deriving DecidableEq, Repr

/-- The choice between `q` and `q + 1`, which are equally near. -/
def Tie.pick : Tie → Nat → Nat
  | .up, q => q + 1
  | .even, q => q + q % 2

/-- The number of decimal digits of `n`. -/
def decimalLength (n : Nat) : Nat := (Nat.toDigits 10 n).length

/-- The power of ten `e` with `10 ^ e ≤ num / den < 10 ^ (e + 1)`, both positive. -/
def decade (num den : Nat) : Int :=
  let e : Int := (decimalLength num : Int) - decimalLength den
  let atLeast := if 0 ≤ e then den * .pow 10 e.toNat ≤ num else den ≤ num * .pow 10 (-e).toNat
  if atLeast then e else e - 1

/-- The reals that round to one magnitude, over a common denominator. -/
structure RoundingInterval where
  /-- Half way to the magnitude below. -/
  lower : Nat
  /-- The value itself. -/
  value : Nat
  /-- Half way to the magnitude above. -/
  upper : Nat
  /-- The denominator of all three. -/
  den : Nat
  /-- Whether the ends belong to the interval. -/
  closed : Bool

/-- The interval of the positive finite magnitude `m`. -/
def Format.interval (f : Format) (m : Nat) : RoundingInterval where
  lower := f.units (m - 1) + f.units m
  value := 2 * f.units m
  upper := f.units m + f.units (m + 1)
  den := 1 <<< (f.unit + 1)
  closed := m % 2 == 0

namespace RoundingInterval

/-- The neighbour of the value on the grid of multiples of `10 ^ e` that lies in
the interval: the nearer one if both do. -/
def onGrid? (r : RoundingInterval) (tie : Tie) (e : Int) : Option Nat :=
  let scale := if e < 0 then Nat.pow 10 (-e).toNat else 1
  let den := if e < 0 then r.den else r.den * .pow 10 e.toNat
  let q := r.value * scale / den
  let lower := r.lower * scale
  let upper := r.upper * scale
  let down := if r.closed then lower ≤ q * den else lower < q * den
  let up := if r.closed then (q + 1) * den ≤ upper else (q + 1) * den < upper
  if down then
    if up then
      match compare (2 * (r.value * scale % den)) den with
      | .lt => some q
      | .eq => some (tie.pick q)
      | .gt => some (q + 1)
    else some q
  else if up then some (q + 1)
  else none

/-- The first grid with a neighbour in the interval, from `10 ^ e` downwards
through `count` more grids. -/
def search (r : RoundingInterval) (tie : Tie) : (count : Nat) → (e : Int) → Decimal
  | 0, e => ⟨(r.onGrid? tie e).getD 0, e⟩
  | count + 1, e =>
    match r.onGrid? tie e with
    | some digits => ⟨digits, e⟩
    | none => r.search tie count (e - 1)

end RoundingInterval

/-- Trailing zeros moved from the digits into the exponent, at most `count` of
them. -/
def Decimal.strip : (count : Nat) → Decimal → Decimal
  | 0, d => d
  | count + 1, d => if d.digits % 10 = 0 then strip count ⟨d.digits / 10, d.exponent + 1⟩ else d

/-- The shortest decimal that reads back as the positive finite magnitude `m`.
Seventeen digits tell any two doubles apart. -/
def Format.shortest (f : Format) (tie : Tie) (m : Nat) : Decimal :=
  let r := f.interval m
  (r.search tie 17 (decade r.value r.den)).strip 18

/-! ### Writing -/

/-- A row of zeros. -/
def zeros (n : Nat) : List Char := List.replicate n '0'

/-- A decimal without exponent, however long it gets: `0.0000001`, `1500`. -/
def Decimal.positional (d : Decimal) : String :=
  let ds := Nat.toDigits 10 d.digits
  if 0 ≤ d.exponent then String.ofList (ds ++ zeros d.exponent.toNat)
  else
    let places := (-d.exponent).toNat
    if places < ds.length then
      String.ofList (ds.take (ds.length - places) ++ '.' :: ds.drop (ds.length - places))
    else String.ofList ('0' :: '.' :: zeros (places - ds.length) ++ ds)

/-- A decimal as documents write it: positional with at least one place from
`0.00001` to sixteen digits before the point, and outside with an exponent, which
has its sign: `1e-6`, `1.5e+16`. -/
def Decimal.compact (d : Decimal) : String :=
  let ds := Nat.toDigits 10 d.digits
  let point := d.exponent + ds.length
  if 0 ≤ d.exponent ∧ point ≤ 16 then d.positional ++ ".0"
  else if -5 < point ∧ point ≤ 16 then d.positional
  else
    let mantissa := match ds with
      | [] => []
      | [c] => [c]
      | c :: cs => c :: '.' :: cs
    String.ofList mantissa ++ (if 0 < point then "e+" else "e") ++ toString (point - 1)

namespace Binary

variable {f : Format}

/-- The sign of a number, written only when it is negative. -/
def signText (x : Binary f) : String := if x.negative then "-" else ""

/-- The shortest text that reads back, without exponent. -/
def positional (x : Binary f) : String :=
  if x.isNaN then "NaN"
  else if x.isInfinite then x.signText ++ "inf"
  else if x.isZero then x.signText ++ "0"
  else x.signText ++ (f.shortest .up x.magnitude).positional

/-- The shortest text that reads back, as documents write it. -/
def compact (x : Binary f) : String :=
  if x.isZero then x.signText ++ "0.0"
  else x.signText ++ (f.shortest .even x.magnitude).compact

end Binary

/-! ### Reading -/

/-- The greatest sixty-four bit word. -/
def maxWord : Nat := UInt64.size - 1

/-- A decimal being read: the digits kept so far and the power of ten they count. -/
structure Significand where
  digits : Nat
  exponent : Int

namespace Significand

/-- One more digit before the point. Once a digit does not fit, it and all later
ones only raise the exponent. -/
def pushWhole (s : Significand) (d : Nat) : Significand :=
  if s.exponent ≠ 0 ∨ maxWord < s.digits * 10 + d then { s with exponent := s.exponent + 1 }
  else { s with digits := s.digits * 10 + d }

/-- The digits after the point, up to the first one that does not fit. -/
def pushFraction : Significand → List Nat → Significand
  | s, [] => s
  | s, d :: ds =>
    if maxWord < s.digits * 10 + d then s
    else pushFraction ⟨s.digits * 10 + d, s.exponent - 1⟩ ds

end Significand

/-- The double nearest to a power of ten. -/
def tenTo (n : Nat) : Double := .ofRatio false (.pow 10 n) 1

/-- `x * 10 ^ e` in steps that stay within the range of doubles. A negative `e`
below the range divides by `10 ^ 308` first, `rounds` times at most: after three
rounds nothing is left of any word. -/
def scaleByTen : (rounds : Nat) → Double → Int → Option Double
  | rounds, x, e =>
    if 0 ≤ e ∧ e ≤ 308 then
      let y := x.mul (tenTo e.toNat)
      if y.isFinite then some y else none
    else if -308 ≤ e ∧ e < 0 then some (x.div (tenTo (-e).toNat))
    else if x.isZero then some x
    else if 0 ≤ e then none
    else match rounds with
      | 0 => some .zero
      | rounds + 1 => scaleByTen rounds (x.div (tenTo 308)) (e + 308)

/-- The double that a decimal is read as: `whole` and `fraction` are its digits,
`exponent` its power of ten. It is absent when it exceeds every double. -/
def readDouble? (negative : Bool) (whole fraction : List Nat) (exponent : Int) : Option Double := do
  let s := (whole.foldl Significand.pushWhole ⟨0, 0⟩).pushFraction fraction
  let x ← scaleByTen 3 (.ofRatio false s.digits 1) (s.exponent + exponent)
  return if negative then x.neg else x

end MaterialGraph.Number
