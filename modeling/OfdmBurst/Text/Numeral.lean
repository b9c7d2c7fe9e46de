/-!
# Reading numerals

Whole numbers are decimal digits after an optional sign; a minus sign is refused where the numbers
have no sign at all, and nothing else (blanks, underscores) is allowed. Real numbers also take a
point with digits on at least one side of it, an exponent, and the words for infinity and for no
number, in any case. A numeral that is too large reads as infinity, one that is too small as zero.

## Main definitions

* `readNatural`, `readInteger`: whole numbers below a bound, or inside a range
* `readReal`: the nearest 64-bit number to a decimal
* `readFlag`: the two words for a truth value
-/

namespace OfdmBurst

namespace Text

/-- The value of one decimal digit. -/
def digitValue? (c : Char) : Option Nat :=
  if '0' ≤ c ∧ c ≤ '9' then some (c.toNat - '0'.toNat) else none

/-- The value of a text of digits after those already read. -/
def digitsAfter? (sofar : Nat) : List Char → Option Nat
  | [] => some sofar
  | c :: rest => do digitsAfter? (10 * sofar + (← digitValue? c)) rest

/-- The value of a nonempty text of digits. -/
def digits? : List Char → Option Nat
  | [] => none
  | cs => digitsAfter? 0 cs

/-- A whole number below `bound`, with or without a plus sign. -/
def readNatural (bound : Nat) (text : String) : Option Nat :=
  let value? :=
    match text.toList with
    | '+' :: cs => digits? cs
    | cs => digits? cs
  value?.filter (· < bound)

/-- A whole number at least `low` and below `bound`, with either sign. -/
def readInteger (low bound : Int) (text : String) : Option Int :=
  let value? : Option Int :=
    match text.toList with
    | '+' :: cs => (digits? cs).map Int.ofNat
    | '-' :: cs => (digits? cs).map fun n => -(n : Int)
    | cs => (digits? cs).map Int.ofNat
  value?.filter fun v => low ≤ v ∧ v < bound

/-- The two words for a truth value, in lower case only. -/
def readFlag : String → Option Bool
  | "true" => some true
  | "false" => some false
  | _ => none

/-! ### Real numbers

A decimal is split into its integer digits, its fraction digits and its exponent. -/

/-- A decimal as written: the digits without the point, and the power of ten they are scaled by. -/
structure Scientific where
  digits : List Char
  exponent : Int

/-- The exponent after the letter, with an optional sign. -/
def readExponent? : List Char → Option Int
  | '+' :: cs => (digits? cs).map Int.ofNat
  | '-' :: cs => (digits? cs).map fun n => -(n : Int)
  | cs => (digits? cs).map Int.ofNat

/-- Split an unsigned decimal into digits and exponent. There is a digit before or after the
point, and an exponent letter is followed by an exponent. -/
def scientific? (cs : List Char) : Option Scientific :=
  let isDigit (c : Char) : Bool := (digitValue? c).isSome
  let integer := cs.takeWhile isDigit
  let afterInteger := cs.dropWhile isDigit
  let (fraction, rest) :=
    match afterInteger with
    | '.' :: more => (more.takeWhile isDigit, more.dropWhile isDigit)
    | more => ([], more)
  if integer.isEmpty && fraction.isEmpty then none
  else
    let scale : Int := -(fraction.length : Int)
    match rest with
    | [] => some ⟨integer ++ fraction, scale⟩
    | e :: more =>
      if e = 'e' ∨ e = 'E' then
        (readExponent? more).map fun n => ⟨integer ++ fraction, n + scale⟩
      else none

/-- The nearest 64-bit number. The largest finite number has 309 integer digits and the smallest
positive one a first digit at place 324, so beyond those the answer is known without computing a
power of ten. -/
def Scientific.toFloat (s : Scientific) : Float :=
  let digits := s.digits.dropWhile (· == '0')
  let value := (digits? digits).getD 0
  let magnitude : Int := digits.length + s.exponent
  if value = 0 then 0
  else if 310 < magnitude then 1.0 / 0.0
  else if magnitude < -330 then 0
  else if s.exponent < 0 then Float.ofScientific value true (-s.exponent).toNat
  else Float.ofScientific value false s.exponent.toNat

/-- A positive real number, or one of the words. -/
def readMagnitude (cs : List Char) : Option Float :=
  let word := cs.map Char.toLower
  if word = "inf".toList ∨ word = "infinity".toList then some (1.0 / 0.0)
  else if word = "nan".toList then some (0.0 / 0.0)
  else (scientific? cs).map Scientific.toFloat

/-- A real number with an optional sign. -/
def readReal (text : String) : Option Float :=
  match text.toList with
  | '+' :: cs => readMagnitude cs
  | '-' :: cs => (readMagnitude cs).map (- ·)
  | cs => readMagnitude cs

end Text

end OfdmBurst
