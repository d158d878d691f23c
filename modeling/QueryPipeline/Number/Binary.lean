/-!
# Binary floating values as exact integers

A finite binary floating value is `mantissa * 2 ^ exponent` for two integers, and the reals that
round to it form an interval whose ends are again such numbers.  Everything the decimal printer
decides is decided on these integers, so no floating arithmetic takes part in it.

## Main definitions

- `Format`: the field widths of a binary format (`Format.double`, `Format.single`).
- `Binary`: a finite magnitude, with the flag for the narrow gap below a power of two.
- `Reading.ofBits`: sign and magnitude of a bit pattern.
- `Binary.readsBack`: whether a decimal lies among the reals that round to a magnitude.
-/

namespace QueryPipeline.Number

/-! ## §1 Decimals -/

/-- The number `digits * 10 ^ exponent`. -/
structure Decimal where
  digits : Nat
  exponent : Int
deriving Repr, DecidableEq

/-- How many decimal digits a natural number is written with. -/
def digitCount (n : Nat) : Nat :=
  (Nat.toDigits 10 n).length

/-! ## §2 Formats and bit patterns -/

/-- Field widths of a binary floating format. -/
structure Format where
  fractionBits : Nat
  exponentBits : Nat
deriving Repr, DecidableEq

/-- Eleven exponent bits and fifty-two fraction bits. -/
def Format.double : Format := ⟨52, 11⟩

/-- Eight exponent bits and twenty-three fraction bits. -/
def Format.single : Format := ⟨23, 8⟩

/-- The offset of the stored exponent. -/
def Format.bias (f : Format) : Int :=
  Int.pow 2 (f.exponentBits - 1) - 1

/-- A finite magnitude `mantissa * 2 ^ exponent`. -/
structure Binary where
  mantissa : Nat
  exponent : Int
  /-- The gap to the magnitude below is half the gap to the one above. -/
  narrowBelow : Bool
deriving Repr, DecidableEq

/-- What stands behind the sign of a bit pattern. -/
inductive Magnitude where
  | nan
  | infinite
  | finite (value : Binary)
deriving Repr, DecidableEq

/-- A bit pattern taken apart. -/
structure Reading where
  negative : Bool
  magnitude : Magnitude
deriving Repr, DecidableEq

/-- Sign, exponent and fraction fields decoded: the top exponent stands for the special values,
    the bottom one for the subnormal magnitudes without a leading bit. -/
def Reading.ofBits (f : Format) (bits : Nat) : Reading :=
  let fraction := bits % Nat.pow 2 f.fractionBits
  let stored := bits / Nat.pow 2 f.fractionBits % Nat.pow 2 f.exponentBits
  let sign := bits / Nat.pow 2 (f.fractionBits + f.exponentBits) % 2
  let magnitude :=
    if stored = Nat.pow 2 f.exponentBits - 1 then
      if fraction = 0 then .infinite else .nan
    else if stored = 0 then
      .finite ⟨fraction, 1 - f.bias - f.fractionBits, false⟩
    else
      .finite ⟨Nat.pow 2 f.fractionBits + fraction, stored - f.bias - f.fractionBits,
        fraction == 0 && stored > 1⟩
  ⟨sign == 1, magnitude⟩

/-! ## §3 The rounding interval -/

/-- Compare `d` with `n * 2 ^ j`, by cross-multiplying naturals. -/
def Decimal.compareBinary (d : Decimal) (n : Nat) (j : Int) : Ordering :=
  compare (d.digits * Nat.pow 10 d.exponent.toNat * Nat.pow 2 (-j).toNat)
    (n * Nat.pow 2 j.toNat * Nat.pow 10 (-d.exponent).toNat)

/-- A decimal reads back to `x` when it lies between the midpoints towards the two neighbours of
    `x`.  A midpoint itself rounds to the neighbour with an even mantissa. -/
def Binary.readsBack (x : Binary) (d : Decimal) : Bool :=
  let low := if x.narrowBelow then 4 * x.mantissa - 1 else 4 * x.mantissa - 2
  let high := 4 * x.mantissa + 2
  let endsIncluded := x.mantissa % 2 == 0
  let aboveLow := match d.compareBinary low (x.exponent - 2) with
    | .gt => true
    | .eq => endsIncluded
    | .lt => false
  let belowHigh := match d.compareBinary high (x.exponent - 2) with
    | .lt => true
    | .eq => endsIncluded
    | .gt => false
  aboveLow && belowHigh

end QueryPipeline.Number
