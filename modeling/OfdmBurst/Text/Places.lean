import OfdmBurst.Text.Shortest

/-!
# A number with a fixed count of decimal places

The exact binary value is rounded to the given number of places, and a value half way between two
decimals goes to the one with the even last digit. The sign is written whenever the number has
one, so that a small negative number reads `-0.000000000`.
-/

namespace OfdmBurst

namespace Text

/-- `numerator / denominator` to the nearest whole number, halves to the even neighbour. -/
def roundHalfEven (numerator denominator : Nat) : Nat :=
  let whole := numerator / denominator
  let twice := 2 * (numerator % denominator)
  if twice < denominator ∨ (twice = denominator ∧ whole % 2 = 0) then whole else whole + 1

/-- A bit pattern's value written with `places` decimal places. -/
def Reading.fixed (places : Nat) : Reading → String
  | .finite negative significand exponent _ =>
    let numerator := significand * Nat.pow 2 exponent.toNat * Nat.pow 10 places
    let digits := roundHalfEven numerator (Nat.pow 2 (-exponent).toNat)
    (if negative then "-" else "") ++ pointed digits places
  | reading => reading.text

/-- A 64-bit number with `places` decimal places. -/
def fixedPlaces (places : Nat) (x : Float) : String :=
  (BinaryFormat.double.decode x.toBits.toNat).fixed places

end Text

end OfdmBurst
