import QueryPipeline.Number.Shortest

/-!
# Writing floating values

A `Style` collects the decisions of one output format: which magnitudes are written positionally,
whether a whole number keeps a zero behind the point, and where ties between digits go.  `Style.write`
lays out the fewest digits that read back accordingly.
-/

namespace QueryPipeline.Number

/-- The decisions of a format that writes floating values. -/
structure Style where
  /-- Whether a number whose leading digit stands at `10 ^ e` is written without an exponent. -/
  positional : Int → Bool
  /-- Whether a whole number written positionally ends in `.0`. -/
  pointZero : Bool
  /-- Where a tie between two shortest decimals goes. -/
  tie : Tie

/-- The digits with the point set after the first `point` of them, padded with zeros. -/
def layoutPositional (pointZero : Bool) (digits : List Char) (point : Int) : String :=
  if point ≤ 0 then
    "0." ++ String.ofList (List.replicate (-point).toNat '0' ++ digits)
  else if digits.length ≤ point then
    String.ofList (digits ++ List.replicate (point - digits.length).toNat '0')
      ++ (if pointZero then ".0" else "")
  else
    String.ofList (digits.take point.toNat) ++ "." ++ String.ofList (digits.drop point.toNat)

/-- The digits with the point after the first of them, and a signed exponent of at least two
    digits. -/
def layoutScientific (digits : List Char) (exponent : Int) : String :=
  let fraction := digits.drop 1
  let size := toString exponent.natAbs
  String.ofList (digits.take 1)
    ++ (if fraction.isEmpty then "" else "." ++ String.ofList fraction)
    ++ "e" ++ (if exponent < 0 then "-" else "+")
    ++ (if size.length < 2 then "0" ++ size else size)

/-- A decimal laid out in a style. -/
def Style.layout (s : Style) (d : Decimal) : String :=
  let digits := Nat.toDigits 10 d.digits
  let point := digits.length + d.exponent
  if s.positional (point - 1) then layoutPositional s.pointZero digits point
  else layoutScientific digits (point - 1)

/-- The text of a bit pattern: sign first, then the digits or the name of the special value.
    A value that is not a number has no sign. -/
def Style.writeReading (s : Style) (r : Reading) : String :=
  let sign := if r.negative then "-" else ""
  match r.magnitude with
  | .nan => "NaN"
  | .infinite => sign ++ "inf"
  | .finite x => sign ++ s.layout (x.shortest s.tie)

def Style.writeDouble (s : Style) (x : Float) : String :=
  s.writeReading (.ofBits .double x.toBits.toNat)

/-- The text of a single, with the digits that tell it from other singles. -/
def Style.writeSingle (s : Style) (x : Float32) : String :=
  s.writeReading (.ofBits .single x.toBits.toNat)

end QueryPipeline.Number
