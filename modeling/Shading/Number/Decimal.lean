import Shading.Number.Binary

/-!
# Decimal text of floating point numbers

A number is written with the fewest digits that read back as the same number,
of those the nearest, and upward when two are equally near.  `BinaryFormat`
fixes the width; all work is exact natural number arithmetic on the number
`mantissa * 2 ^ exponent`.

`Decimal.text` places the point: positional notation for decimal exponents
from `-4` to `15`, scientific notation otherwise.  `Decimal.toBinary32` and
`Decimal.toBinary64` read a decimal back, rounding to nearest.
-/

namespace Shading

/-- Widths of the fields of a binary floating point word. -/
structure BinaryFormat where
  fractionBits : Nat
  exponentBits : Nat

namespace BinaryFormat

def single : BinaryFormat := ⟨23, 8⟩

def double : BinaryFormat := ⟨52, 11⟩

/-- The leading bit that a word does not store. -/
def hiddenBit (format : BinaryFormat) : Nat := Nat.pow 2 format.fractionBits

/-- Number of values of the exponent field. -/
def exponentCodes (format : BinaryFormat) : Nat := Nat.pow 2 format.exponentBits

end BinaryFormat

/-- What a word stands for, its sign apart. -/
inductive Magnitude where
  | finite (mantissa : Nat) (exponent : Int)
  | infinite
  | nan

namespace BinaryFormat

def isNegative (format : BinaryFormat) (word : Nat) : Bool :=
  word.testBit (format.fractionBits + format.exponentBits)

/-- Decodes a word; a zero exponent field marks a number without the hidden
leading bit. -/
def magnitude (format : BinaryFormat) (word : Nat) : Magnitude :=
  let fraction := word % format.hiddenBit
  let exponent := word / format.hiddenBit % format.exponentCodes
  let least : Int := 2 - (format.exponentCodes / 2 : Nat) - format.fractionBits
  if exponent = format.exponentCodes - 1 then
    if fraction = 0 then .infinite else .nan
  else if exponent = 0 then
    .finite fraction least
  else
    .finite (fraction + format.hiddenBit) (least + exponent - 1)

end BinaryFormat

/-- The number `digits * 10 ^ exponent`. -/
structure Decimal where
  digits : Nat
  exponent : Int
deriving DecidableEq

namespace Decimal

/-! ## Shortest digits -/

/-- Number of decimal digits of `n`. -/
def digitCount (n : Nat) : Nat := (Nat.toDigits 10 n).length

/-- Scales `n * 2 ^ twos * 10 ^ tens` to a fraction of natural numbers whose
denominator is the same for all `n`. -/
def numerator (n : Nat) (twos tens : Int) : Nat := n * Nat.pow 2 twos.toNat * Nat.pow 10 tens.toNat

def denominator (twos tens : Int) : Nat :=
  Nat.pow 2 (-twos).toNat * Nat.pow 10 (-tens).toNat

/-- The `k` with `10 ^ (k - 1) ≤ n * 2 ^ twos < 10 ^ k`, for positive `n`. -/
def magnitude (n : Nat) (twos : Int) : Int :=
  let num := numerator n twos 0
  let den := denominator twos 0
  if den ≤ num then
    digitCount (num / den)
  else
    1 - (digitCount ((den + num - 1) / num - 1) : Int)

/-- The interval of reals that round to one number, in units of `2 ^ twos`:
its ends, the number itself, and whether the ends belong to it. -/
structure Interval where
  lower : Nat
  value : Nat
  upper : Nat
  twos : Int
  closed : Bool

/-- The interval of `mantissa * 2 ^ exponent`.  Below a power of two the next
number is only half as far away. -/
def Interval.ofNumber (format : BinaryFormat) (mantissa : Nat) (exponent : Int) : Interval where
  lower := 4 * mantissa - (if mantissa = format.hiddenBit then 1 else 2)
  value := 4 * mantissa
  upper := 4 * mantissa + 2
  twos := exponent - 2
  closed := mantissa % 2 = 0

/-- The multiple of `10 ^ unit` nearest to the number among its two neighbours
that lie in the interval. -/
def Interval.nearest? (interval : Interval) (unit : Int) : Option Nat :=
  let scale (n : Nat) := numerator n interval.twos (-unit)
  let den := denominator interval.twos (-unit)
  let below := scale interval.value / den
  let inside (a b : Nat) : Bool := if interval.closed then decide (a ≤ b) else decide (a < b)
  let down := inside (scale interval.lower) (below * den)
  let up := inside ((below + 1) * den) (scale interval.upper)
  let upIsNearer := den ≤ 2 * (scale interval.value % den)
  if up && (!down || upIsNearer) then some (below + 1)
  else if down then some below
  else none

/-- Tries `count` digits, then one more, up to `fuel` times. -/
def Interval.search (interval : Interval) (top : Int) : (fuel count : Nat) → Decimal
  | 0, _ => ⟨0, 0⟩
  | fuel + 1, count =>
    let unit := top - count
    match interval.nearest? unit with
    | some digits => ⟨digits, unit⟩
    | none => interval.search top fuel (count + 1)

/-- Seventeen digits tell any two double precision numbers apart. -/
def maxDigits : Nat := 17

/-- The fewest digits that read back as `mantissa * 2 ^ exponent`. -/
def shortest (format : BinaryFormat) (mantissa : Nat) (exponent : Int) : Decimal :=
  if mantissa = 0 then ⟨0, 0⟩
  else
    (Interval.ofNumber format mantissa exponent).search (magnitude mantissa exponent) maxDigits 1

/-! ## Text -/

/-- Where positional notation ends, by the exponent of the first digit. -/
structure NumberStyle where
  leastPositional : Int
  leastScientific : Int

def style : NumberStyle := ⟨-4, 16⟩

/-- The digits without trailing zeros, and the decimal exponent just above the
first one. -/
def significant (d : Decimal) : List Char × Int :=
  let text := Nat.toDigits 10 d.digits
  let kept := (text.reverse.dropWhile (· == '0')).reverse
  (if kept.isEmpty then ['0'] else kept, d.exponent + text.length)

def positional (digits : List Char) (point : Int) : List Char :=
  if point ≤ 0 then
    '0' :: '.' :: (List.replicate (-point).toNat '0' ++ digits)
  else
    let whole := point.toNat
    let fraction := digits.drop whole
    digits.take whole ++ List.replicate (whole - digits.length) '0' ++
      '.' :: (if fraction.isEmpty then ['0'] else fraction)

def scientific (digits : List Char) (point : Int) : List Char :=
  let fraction := digits.drop 1
  digits.take 1 ++ (if fraction.isEmpty then [] else '.' :: fraction) ++
    'e' :: (toString (point - 1)).toList

/-- Text of a decimal, always with a point or an exponent. -/
def text (d : Decimal) : String :=
  if d.digits = 0 then "0.0"
  else
    let (digits, point) := d.significant
    String.ofList <|
      if style.leastPositional ≤ point - 1 && point - 1 < style.leastScientific then
        positional digits point
      else
        scientific digits point

/-! ## Reading -/

/-- Beyond these exponents every decimal is infinite or zero in both widths. -/
def overflows (d : Decimal) : Bool := decide (310 < d.exponent + digitCount d.digits)

def underflows (d : Decimal) : Bool :=
  d.digits = 0 || decide (d.exponent + digitCount d.digits < -330)

/-- The nearest double precision number, a half to the even one. -/
def toBinary64 (d : Decimal) : Binary64 :=
  if d.underflows then .zero
  else if d.overflows then .infinity
  else .ofFloat (Float.ofScientific d.digits (d.exponent < 0) d.exponent.natAbs)

/-- The nearest single precision number, a half to the even one. -/
def toBinary32 (d : Decimal) : Binary32 :=
  if d.underflows then .zero
  else if d.overflows then .infinity
  else .ofFloat (Float32.ofScientific d.digits (d.exponent < 0) d.exponent.natAbs)

def digitsValue (digits : List Char) : Nat :=
  digits.foldl (fun n c => 10 * n + (c.toNat - '0'.toNat)) 0

/-- Reads an optional exponent such as `e-3`. -/
def readExponent : List Char → Int
  | _ :: '-' :: digits => -(digitsValue digits : Int)
  | _ :: '+' :: digits => digitsValue digits
  | _ :: digits => digitsValue digits
  | [] => 0

/-- Reads `digits [. digits] [e [sign] digits]`. -/
def ofText (text : List Char) : Decimal :=
  let isDigit (c : Char) := c.isDigit
  let whole := text.takeWhile isDigit
  let rest := text.dropWhile isDigit
  let (fraction, rest) : List Char × List Char :=
    match rest with
    | '.' :: tail => (tail.takeWhile isDigit, tail.dropWhile isDigit)
    | _ => ([], rest)
  ⟨digitsValue (whole ++ fraction), readExponent rest - fraction.length⟩

end Decimal

/-- Text of a word: sign, then the shortest decimal, `inf` or `NaN`. -/
def BinaryFormat.text (format : BinaryFormat) (word : Nat) : String :=
  let sign := if format.isNegative word then "-" else ""
  match format.magnitude word with
  | .finite mantissa exponent => sign ++ (Decimal.shortest format mantissa exponent).text
  | .infinite => sign ++ "inf"
  | .nan => "NaN"

def Binary32.text (x : Binary32) : String := BinaryFormat.single.text x.bits.toNat

def Binary64.text (x : Binary64) : String := BinaryFormat.double.text x.bits.toNat

end Shading
