import QueryPipeline.Number.Binary

/-!
# The fewest digits that read back

Of all decimals that round to a given binary magnitude, `Binary.shortest` picks one with the fewest
digits, and of those the one nearest to the magnitude.  It walks through the decimal grids from
coarse to fine and tests the two grid points around the magnitude, in exact arithmetic.
-/

namespace QueryPipeline.Number

/-- Where an exact tie between the two nearest grid points goes. -/
inductive Tie where
  | toEven
  | awayFromZero
deriving Repr, DecidableEq

/-- A magnitude as a fraction of naturals. -/
def Binary.numerator (x : Binary) : Nat :=
  x.mantissa * Nat.pow 2 x.exponent.toNat

@[inherit_doc Binary.numerator]
def Binary.denominator (x : Binary) : Nat :=
  Nat.pow 2 (-x.exponent).toNat

/-- The least `k` with `x < 10 ^ k`, for a magnitude other than zero. -/
def Binary.scale (x : Binary) : Int :=
  if x.denominator ≤ x.numerator then
    digitCount (x.numerator / x.denominator)
  else
    1 - digitCount ((x.denominator - 1) / x.numerator)

/-- The exact decimal value of a magnitude. -/
def Binary.exact (x : Binary) : Decimal :=
  ⟨x.mantissa * Nat.pow 2 x.exponent.toNat * Nat.pow 5 (-x.exponent).toNat, min x.exponent 0⟩

/-- The nearest of the two points of the grid `10 ^ grid` around `x` that read back to `x`. -/
def Binary.onGrid? (tie : Tie) (x : Binary) (grid : Int) : Option Decimal :=
  let num := x.numerator * Nat.pow 10 (-grid).toNat
  let den := x.denominator * Nat.pow 10 grid.toNat
  let below : Decimal := ⟨num / den, grid⟩
  let above : Decimal := ⟨num / den + 1, grid⟩
  match x.readsBack below, x.readsBack above with
  | true, true =>
    match compare (2 * (num % den)) den, tie with
    | .lt, _ => some below
    | .gt, _ => some above
    | .eq, .awayFromZero => some above
    | .eq, .toEven => some (if below.digits % 2 = 0 then below else above)
  | true, false => some below
  | false, true => some above
  | false, false => none

/-- Trailing zeros of the digits moved into the exponent. -/
def Decimal.trim (d : Decimal) : Decimal :=
  let zeros := ((Nat.toDigits 10 d.digits).reverse.takeWhile (· == '0')).length
  ⟨d.digits / Nat.pow 10 zeros, d.exponent + zeros⟩

/-- Seventeen digits tell any two doubles apart, so no grid finer than that is tried. -/
def maxDigits : Nat := 17

/-- The fewest digits that read back to `x`, nearest to it among those; zero is the digit `0`. -/
def Binary.shortest (tie : Tie) (x : Binary) : Decimal :=
  if x.mantissa = 0 then ⟨0, 0⟩
  else
    let found := (List.range maxDigits).findSome? fun (n : Nat) => x.onGrid? tie (x.scale - (n + 1))
    (found.getD x.exact).trim

end QueryPipeline.Number
