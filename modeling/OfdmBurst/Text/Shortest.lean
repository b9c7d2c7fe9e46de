/-!
# Shortest decimal text of a binary floating-point number

A finite number is a significand times a power of two. Every real closer to it than to its
neighbours rounds to it, so among those reals there is one with the fewest decimal digits, and
that one is written. The search walks the decimal grids `… 100, 10, 1, 0.1 …` from coarse to
fine. On each grid only the two points around the number can lie in its rounding interval, and the
first grid with a hit gives the digits. Of two hits on one grid the nearer is taken, and an exact
tie goes up.

Everything is exact arithmetic on natural numbers. The digits are always written positionally:
there is no exponent, and a whole number has no point.

## Main definitions

* `BinaryFormat`, `BinaryFormat.decode`: the bits of a number as sign, significand and exponent
* `Reading.shortest`: the fewest digits that read back
* `Decimal.text`: positional notation
-/

namespace OfdmBurst

namespace Text

/-! ### Binary formats -/

/-- Widths of the fraction and exponent fields of a binary interchange format. -/
structure BinaryFormat where
  fractionBits : Nat
  exponentBits : Nat

/-- The 32-bit format. -/
def BinaryFormat.single : BinaryFormat := ⟨23, 8⟩

/-- The 64-bit format. -/
def BinaryFormat.double : BinaryFormat := ⟨52, 11⟩

/-- What a bit pattern denotes. A finite pattern has the value `significand * 2 ^ exponent`, and
`lowEdge` says that the next pattern toward zero is only half as far away as the next one up. -/
inductive Reading where
  | notANumber
  | infinite (negative : Bool)
  | finite (negative : Bool) (significand : Nat) (exponent : Int) (lowEdge : Bool)

/-- Read a bit pattern. A zero exponent field has no hidden bit, an exponent field of ones is an
infinity or no number at all. -/
def BinaryFormat.decode (format : BinaryFormat) (bits : Nat) : Reading :=
  let fraction := bits % Nat.pow 2 format.fractionBits
  let field := bits / Nat.pow 2 format.fractionBits % Nat.pow 2 format.exponentBits
  let negative := bits / Nat.pow 2 (format.fractionBits + format.exponentBits) % 2 == 1
  let bias : Int := (Nat.pow 2 (format.exponentBits - 1) : Nat) - 1
  if field + 1 = Nat.pow 2 format.exponentBits then
    if fraction = 0 then .infinite negative else .notANumber
  else if field = 0 then
    .finite negative fraction (1 - bias - format.fractionBits) false
  else
    .finite negative (Nat.pow 2 format.fractionBits + fraction) (field - bias - format.fractionBits)
      (fraction == 0 && field != 1)

/-! ### Decimals -/

/-- A signed decimal, `digits * 10 ^ exponent` with a sign of its own so that zero has one. -/
structure Decimal where
  negative : Bool
  digits : Nat
  exponent : Int

/-- The point stands `places` digits from the right; zeros fill up to one digit before it. -/
def pointed (digits places : Nat) : String :=
  let ds := Nat.toDigits 10 digits
  let padded := List.replicate (places + 1 - ds.length) '0' ++ ds
  if places = 0 then String.ofList padded
  else
    String.ofList (padded.take (padded.length - places) ++
      '.' :: padded.drop (padded.length - places))

/-- Positional notation, with a minus sign in front of negatives and of negative zero. -/
def Decimal.text (d : Decimal) : String :=
  let magnitude :=
    match d.exponent with
    | .ofNat up => toString (d.digits * Nat.pow 10 up)
    | .negSucc down => pointed d.digits (down + 1)
  if d.negative then "-" ++ magnitude else magnitude

/-! ### The search

A positive number is held as a fraction `top / bottom`, and its rounding interval by the numerators
`low` and `high` over the same `bottom`. -/

/-- A number with its rounding interval, all over one denominator. -/
structure Interval where
  low : Nat
  value : Nat
  high : Nat
  bottom : Nat
  closed : Bool

/-- The interval of reals that round to `significand * 2 ^ exponent`. It reaches half way to each
neighbour, and its ends belong to it when the significand is even. -/
def Interval.around (significand : Nat) (exponent : Int) (lowEdge : Bool) : Interval :=
  let quarter := exponent - 2
  let scale := Nat.pow 2 quarter.toNat
  { low := (4 * significand - if lowEdge then 1 else 2) * scale
    value := 4 * significand * scale
    high := (4 * significand + 2) * scale
    bottom := Nat.pow 2 (-quarter).toNat
    closed := significand % 2 == 0 }

/-- Numerator and denominator of `numerator / 10 ^ place`, over `bottom`. -/
def Interval.scaled (i : Interval) (numerator : Nat) (place : Int) : Nat × Nat :=
  (numerator * Nat.pow 10 (-place).toNat, i.bottom * Nat.pow 10 place.toNat)

/-- Whether `digits * 10 ^ place` rounds to the number. -/
def Interval.holds (i : Interval) (digits : Nat) (place : Int) : Bool :=
  let (low, bottom) := i.scaled i.low place
  let (high, _) := i.scaled i.high place
  if i.closed then low ≤ digits * bottom && digits * bottom ≤ high
  else low < digits * bottom && digits * bottom < high

/-- The point of the grid `10 ^ place` that rounds to the number, if there is one: the nearer of
the two neighbours, the upper one on a tie. -/
def Interval.onGrid (i : Interval) (place : Int) : Option Nat :=
  let (value, bottom) := i.scaled i.value place
  let below := value / bottom
  match i.holds below place, i.holds (below + 1) place with
  | true, true => some (if 2 * (value % bottom) < bottom then below else below + 1)
  | true, false => some below
  | false, true => some (below + 1)
  | false, false => none

/-- Try the grids from `place` down, at most `count` of them. -/
def Interval.search (i : Interval) : (count : Nat) → (place : Int) → Nat × Int
  | 0, place => (0, place)
  | count + 1, place =>
    match i.onGrid place with
    | some digits => (digits, place)
    | none => i.search count (place - 1)

/-- The shortest decimal of a positive number. The first grid is coarser than the number, and the
last one, as fine as the binary fraction itself, holds the number exactly. -/
def Interval.shortest (i : Interval) : Nat × Int :=
  let first := (Nat.toDigits 10 (i.high / i.bottom)).length
  i.search (first + i.bottom.log2 + 2) first

/-- The text of what a bit pattern denotes. -/
def Reading.text : Reading → String
  | .notANumber => "NaN"
  | .infinite negative => if negative then "-inf" else "inf"
  | .finite negative 0 _ _ => Decimal.text ⟨negative, 0, 0⟩
  | .finite negative significand exponent lowEdge =>
    let (digits, place) := (Interval.around significand exponent lowEdge).shortest
    Decimal.text ⟨negative, digits, place⟩

/-! ### The two machine formats -/

/-- The text of a 64-bit number. -/
def ofFloat (x : Float) : String := (BinaryFormat.double.decode x.toBits.toNat).text

/-- The text of a 32-bit number. -/
def ofFloat32 (x : Float32) : String := (BinaryFormat.single.decode x.toBits.toNat).text

end Text

end OfdmBurst
