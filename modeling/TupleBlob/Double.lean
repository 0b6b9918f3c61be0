/-! # Doubles

A finite double, held as its sign and its size in units of 2^-1074, the smallest step of the
format. Every finite double is a whole number of units, so products and quotients of sizes are
exact ratios of whole numbers up to one rounding: to the nearest size with at most 53 significant
bits, a tie going to the even one.
-/

namespace TupleBlob

/-- A finite double; `units` counts steps of 2^-1074. -/
structure Double where
  negative : Bool
  units : Nat
deriving DecidableEq, Repr

namespace Double

/-- The units in one: the size 1 is 2^1074 smallest steps. -/
def one : Nat := Nat.pow 2 1074

/-- Sizes from 2^1024 on are past the largest double. -/
def tooLarge : Nat := Nat.pow 2 1024 * one

/-- The number of steps of 2^-1074 from one double of this size to the next: sizes up to 53 bits
are apart by one unit, and each further bit doubles the distance. -/
def spacing (units : Nat) : Nat :=
  Nat.pow 2 (units.log2 - 52)

/-- The whole number nearest to `num / den`, of two equally near ones the even one. -/
def roundQuotient (num den : Nat) : Nat :=
  let floor := num / den
  let rest := num % den
  if 2 * rest < den then floor
  else if den < 2 * rest then floor + 1
  else floor + floor % 2

/-- The size nearest to `num / den` units. -/
def nearest (num den : Nat) : Nat :=
  let step := spacing (num / den)
  roundQuotient num (den * step) * step

def product (a b : Nat) : Nat :=
  nearest (a * b) one

def quotient (a b : Nat) : Nat :=
  nearest (a * one) b

/-! ## Doubles from decimal numbers

A significand of at most 64 bits times a power of ten. The significand is rounded to a double, and
so is the power; one more rounding gives their product or quotient. Powers below 10^-308 are taken
in steps of 308, each of which rounds, until the size is zero.
-/

/-- The largest exponent whose power of ten is a double. -/
def maxPower : Nat := 308

/-- The size nearest to a whole number. -/
def ofNat (n : Nat) : Nat :=
  nearest (n * one) 1

def powerOfTen (n : Nat) : Nat :=
  ofNat (Nat.pow 10 n)

/-- Divides a size by a power of ten, in steps no longer than `maxPower`. -/
def quotientByPower (units n : Nat) : Nat :=
  if n ≤ maxPower then quotient units (powerOfTen n)
  else if units = 0 then 0
  else quotientByPower (quotient units (powerOfTen maxPower)) (n - maxPower)
termination_by n
decreasing_by simp only [maxPower] at *; omega

/-- The size of `significand` times ten to the power `exponent`, unless it is too large. -/
def ofDecimal? (significand : Nat) (exponent : Int) : Option Nat :=
  let units := ofNat significand
  if exponent < 0 then some (quotientByPower units exponent.natAbs)
  else if units = 0 then some 0
  else if maxPower < exponent.natAbs then none
  else
    let units := product units (powerOfTen exponent.natAbs)
    if units < tooLarge then some units else none

/-! ## Shortest digits

The fewest significant digits that read back as a given size. The sizes that round to it form an
interval, its ends included when the size is an even multiple of its spacing. For one digit, two
digits and so on, the decimal numbers just below and just above the size are tried; of two that
both lie in the interval the nearer one is taken, and of two equally near ones the even one.
-/

/-- Digits and a decimal exponent: the number `digits` times ten to the power `exponent`. -/
structure Digits where
  digits : Nat
  exponent : Int
deriving DecidableEq, Repr

/-- The position of the decimal point: the size lies between the powers of ten with the exponents
one below it and at it. The size is scaled by 10^400 first, so that it has a whole part. -/
def pointOf (units : Nat) : Int :=
  (Nat.toDigits 10 (units * Nat.pow 10 400 / one)).length - 400

/-- The sizes that round to `units`, in quarters of a unit: lowest, highest, and whether these two
belong to them. -/
structure Interval where
  low : Nat
  high : Nat
  closed : Bool
deriving DecidableEq, Repr

/-- Below a power of two the next double is half as far away. -/
def interval (units : Nat) : Interval where
  low := 4 * units -
    (if 1 < spacing units ∧ units = Nat.pow 2 units.log2 then 1 else 2) * spacing units
  high := 4 * units + 2 * spacing units
  closed := units / spacing units % 2 = 0

/-- The decimal with its last digit at the power `exponent` of ten that reads back as `units`. -/
def decimalAt? (units : Nat) (exponent : Int) : Option Nat :=
  let scale := Nat.pow 10 (-exponent).toNat
  let step := 4 * one * Nat.pow 10 exponent.toNat
  let range := interval units
  let inside (n : Nat) : Bool :=
    if range.closed then range.low * scale ≤ n * step && n * step ≤ range.high * scale
    else range.low * scale < n * step && n * step < range.high * scale
  let below := 4 * units * scale / step
  match inside below, inside (below + 1) with
  | true, true => some (roundQuotient (4 * units * scale) step)
  | true, false => some below
  | false, true => some (below + 1)
  | false, false => none

/-- Tries `count` digits, and one more while that fails; `more` bounds how often. Seventeen digits
always suffice. -/
def shortestFrom (units : Nat) (point : Int) (count : Nat) : Nat → Digits
  | 0 =>
    ⟨4 * units * Nat.pow 10 (count - point).toNat / (4 * one * Nat.pow 10 (point - count).toNat),
      point - count⟩
  | more + 1 =>
    match decimalAt? units (point - count) with
    | some digits => ⟨digits, point - count⟩
    | none => shortestFrom units point (count + 1) more

def shortest (units : Nat) : Digits :=
  shortestFrom units (pointOf units) 1 17

/-! ## Printing

Sizes from 10^-5 up to below 10^16 are written in positional notation, with at least one digit on
both sides of the point. All others are written with an exponent, which always has a sign and has
no leading zeros. A zero keeps its sign.
-/

/-- Positional notation covers the sizes whose decimal point stands after at most this many
digits. -/
def maxPoint : Int := 16

/-- Positional notation covers the sizes whose decimal point stands after more than this. -/
def minPoint : Int := -5

/-- Significant digits without zeros at the end, and the position of the decimal point. -/
def significant (d : Digits) : List Char × Int :=
  let digits := Nat.toDigits 10 d.digits
  ((digits.reverse.dropWhile (· = '0')).reverse, digits.length + d.exponent)

def zeros (n : Nat) : List Char :=
  List.replicate n '0'

/-- Digits with the decimal point at `point`. -/
def positional (digits : List Char) (point : Int) : List Char :=
  if point ≤ 0 then ['0', '.'] ++ zeros point.natAbs ++ digits
  else if digits.length ≤ point.toNat then
    digits ++ zeros (point.toNat - digits.length) ++ ['.', '0']
  else digits.take point.toNat ++ '.' :: digits.drop point.toNat

/-- Digits with the decimal point after the first one, and the exponent that this needs. -/
def scientific (digits : List Char) (point : Int) : List Char :=
  let exponent := point - 1
  let mantissa :=
    match digits with
    | first :: next :: rest => first :: '.' :: next :: rest
    | digits => digits
  mantissa ++ ['e', if exponent < 0 then '-' else '+'] ++ Nat.toDigits 10 exponent.natAbs

def printUnits (units : Nat) : List Char :=
  if units = 0 then ['0', '.', '0']
  else
    let (digits, point) := significant (shortest units)
    if minPoint < point ∧ point ≤ maxPoint then positional digits point
    else scientific digits point

def print (d : Double) : List Char :=
  if d.negative then '-' :: printUnits d.units else printUnits d.units

end Double

end TupleBlob
