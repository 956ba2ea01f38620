/-!
# Binary floating-point numbers

A number of a binary format is a sign and a magnitude, the unsigned integer
formed by the exponent and fraction bits. Magnitudes are ordered like the
numbers they stand for: those below `2 ^ fractionBits` count multiples of the
smallest positive number, and from there on the exponent part doubles the step.
So a rounded value never needs to be taken apart and put together again, and a
carry out of the fraction is a carry into the exponent.

All arithmetic is exact. A finite magnitude is a whole number of *units*, the
smallest positive number of its format, and one unit is `2 ^ -f.unit`.
-/

namespace MaterialGraph.Number

/-! ### Formats -/

/-- A binary interchange format: how many bits hold the fraction and the exponent. -/
structure Format where
  fractionBits : Nat
  /-- Bits of the biased exponent. -/
  exponentBits : Nat
  deriving DecidableEq, Repr

namespace Format

/-- Thirty-two bits. -/
def single : Format := ⟨23, 8⟩

/-- Sixty-four bits. -/
def double : Format := ⟨52, 11⟩

/-- The smallest positive number is `2 ^ -f.unit`. -/
def unit (f : Format) : Nat := 1 <<< (f.exponentBits - 1) - 2 + f.fractionBits

/-- The magnitude of infinity; greater ones are not numbers. -/
def infinity (f : Format) : Nat := (1 <<< f.exponentBits - 1) <<< f.fractionBits

/-- The value of a finite magnitude, counted in units. -/
def units (f : Format) (m : Nat) : Nat :=
  if m < 1 <<< f.fractionBits then m
  else (1 <<< f.fractionBits + m % 1 <<< f.fractionBits) <<< (m >>> f.fractionBits - 1)

end Format

/-- The integer nearest to `num / den`, ties to the even one. -/
def roundDiv (num den : Nat) : Nat :=
  let q := num / den
  let twice := 2 * (num % den)
  if twice < den then q
  else if den < twice then q + 1
  else if q % 2 = 0 then q else q + 1

namespace Format

/-- The magnitude of `f` nearest to `num / den`, ties to the even one; infinity
beyond the greatest finite number. The step at the quotient is `2 ^ k` units,
and both the exponent part `k` and the rounded fraction simply add up. -/
def round (f : Format) (num den : Nat) : Nat :=
  let scaled := num <<< f.unit
  let k := Nat.log2 (scaled / den) - f.fractionBits
  min (k <<< f.fractionBits + roundDiv scaled (den <<< k)) f.infinity

end Format

/-! ### Numbers -/

/-- A number of the format `f`. -/
structure Binary (f : Format) where
  /-- The sign bit. -/
  negative : Bool
  /-- The bits below the sign. -/
  magnitude : Nat
  deriving DecidableEq, Repr

/-- A thirty-two bit number. -/
abbrev Single := Binary Format.single

/-- A sixty-four bit number. -/
abbrev Double := Binary Format.double

namespace Binary

variable {f : Format}

instance : Inhabited (Binary f) := ⟨⟨false, 0⟩⟩

/-- Zero without a sign. -/
def zero : Binary f := ⟨false, 0⟩

/-- Neither infinite nor undefined. -/
def isFinite (x : Binary f) : Bool := x.magnitude < f.infinity

/-- One of the two infinities. -/
def isInfinite (x : Binary f) : Bool := x.magnitude == f.infinity

/-- Undefined. -/
def isNaN (x : Binary f) : Bool := f.infinity < x.magnitude

/-- Zero of either sign. -/
def isZero (x : Binary f) : Bool := x.magnitude == 0

/-- Numerical equality: the two zeros are equal, and what is not a number equals
nothing. -/
def numEq (x y : Binary f) : Bool :=
  !x.isNaN && !y.isNaN && (x == y || (x.isZero && y.isZero))

/-- The number nearest to `num / den`, with the given sign. -/
def ofRatio (negative : Bool) (num den : Nat) : Binary f := ⟨negative, f.round num den⟩

/-- The number nearest to an integer. -/
def ofInt (n : Int) : Binary f := ofRatio (n < 0) n.natAbs 1

/-- The value in units, meaningful for finite numbers. -/
def units (x : Binary f) : Nat := f.units x.magnitude

/-- The nearest number of another format. Infinities and undefined values stay
what they are. -/
def convert (g : Format) (x : Binary f) : Binary g :=
  if x.isFinite then ofRatio x.negative x.units (1 <<< f.unit)
  else if x.isInfinite then ⟨x.negative, g.infinity⟩
  else ⟨x.negative, g.infinity + 1⟩

/-- The rounded product of two finite numbers. -/
def mul (x y : Binary f) : Binary f :=
  ofRatio (x.negative != y.negative) (x.units * y.units) (1 <<< (2 * f.unit))

/-- The rounded quotient of two finite numbers, the second not zero. -/
def div (x y : Binary f) : Binary f :=
  ofRatio (x.negative != y.negative) x.units y.units

/-- The number with the opposite sign. -/
def neg (x : Binary f) : Binary f := { x with negative := !x.negative }

end Binary

/-- The number with the given thirty-two bits. -/
def Single.ofBits (bits : Nat) : Single := ⟨decide (1 <<< 31 ≤ bits), bits % 1 <<< 31⟩

/-- Rounding to thirty-two bits. -/
def Double.toSingle (x : Double) : Single := x.convert .single

/-- Every thirty-two bit number is a sixty-four bit number. -/
def Single.toDouble (x : Single) : Double := x.convert .double

end MaterialGraph.Number
