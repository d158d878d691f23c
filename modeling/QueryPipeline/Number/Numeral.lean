import QueryPipeline.Number.Binary

/-!
# Numerals

A `Numeral` is a signed decimal as it was written; `Numeral.toDouble` and `Numeral.toSingle` are the
nearest floating values.  Exponents far outside the range of doubles are answered without building
the power of ten.

A description is not read that exactly.  Of its numerals only the leading digits count, and they are
brought to their size in floating point, which may miss the nearest double by a little:
`Numeral.leading` and `Numeral.scaled?`.
-/

namespace QueryPipeline.Number

/-- A signed decimal as written: `-0` and `0` are different numerals. -/
structure Numeral where
  negative : Bool
  magnitude : Decimal
deriving Repr, DecidableEq

/-- The value of a list of decimal digits, most significant first. -/
def digitsValue (digits : List Char) : Nat :=
  digits.foldl (fun n c => 10 * n + (c.toNat - '0'.toNat)) 0

/-- The numeral with the given digits before and after the point, and the given exponent. -/
def Numeral.ofParts (negative : Bool) (whole fraction : List Char) (exponent : Int) : Numeral :=
  ⟨negative, digitsValue (whole ++ fraction), exponent - fraction.length⟩

/-- A decimal whose size is within reach of the binary formats: beyond `10 ^ 400` every decimal is
    as good as `10 ^ 400`, below `10 ^ -400` as good as zero. -/
def Decimal.bounded (d : Decimal) : Decimal :=
  let size := d.exponent + digitCount d.digits
  if d.digits = 0 || size < -400 then ⟨0, 0⟩
  else if 400 < size then ⟨1, 400⟩
  else d

/-- The nearest double; a numeral beyond the largest double gives an infinity. -/
def Numeral.toDouble (n : Numeral) : Float :=
  let d := n.magnitude.bounded
  let x := Float.ofScientific d.digits (d.exponent < 0) d.exponent.natAbs
  if n.negative then -x else x

/-- The nearest single; a numeral beyond the largest single gives an infinity. -/
def Numeral.toSingle (n : Numeral) : Float32 :=
  let d := n.magnitude.bounded
  let x := Float32.ofScientific d.digits (d.exponent < 0) d.exponent.natAbs
  if n.negative then -x else x

/-- Digits put behind a number as long as 64 bits hold it: the number, and the digits left over. -/
def absorbDigits (n : Nat) : List Char → Nat × List Char
  | [] => (n, [])
  | c :: cs =>
    let next := 10 * n + (c.toNat - '0'.toNat)
    if next < Nat.pow 2 64 then absorbDigits next cs else (n, c :: cs)

/-- As much of a numeral as 64 bits hold.  The digits left over before the point still raise the
    exponent, those behind it are forgotten. -/
def Numeral.leading (negative : Bool) (whole fraction : List Char) (exponent : Int) : Numeral :=
  let (n, wholeLeft) := absorbDigits 0 whole
  let (n, fractionLeft) := absorbDigits n fraction
  let kept := fraction.length - fractionLeft.length
  ⟨negative, n, exponent + wholeLeft.length - kept⟩

/-- The nearest double of a power of ten, up to the largest that is finite. -/
def powerOfTen (k : Nat) : Float :=
  Float.ofScientific 1 false k

/-- A numeral of 64 bits brought to its size in floating point.  One that grows too large is no
    value; one that a power of ten cannot make small enough is divided twice. -/
def Numeral.scaled? (n : Numeral) : Option Float :=
  let exponent := n.magnitude.exponent
  let x := n.magnitude.digits.toUInt64.toFloat
  let size? :=
    if n.magnitude.digits = 0 || exponent < -616 then some 0
    else if exponent < -308 then some (x / powerOfTen 308 / powerOfTen (exponent.natAbs - 308))
    else if exponent < 0 then some (x / powerOfTen exponent.natAbs)
    else if exponent ≤ 308 then some (x * powerOfTen exponent.natAbs)
    else none
  (size?.filter Float.isFinite).map fun size => if n.negative then -size else size

end QueryPipeline.Number
