import TupleBlob.Text.Quoted
import TupleBlob.Utf8

/-! # Numerals

The text of a 32-bit word: an optional sign and decimal digits, with blank characters around them.
The leftmost fault decides: a character that is no digit, or the digit at which the number leaves
the range of words.

The text of a byte string: two hexadecimal digits a byte, written in small letters and read in
either case. An odd number of digits is reported before any bad digit, and of the bad digits the
leftmost. Digits are counted in bytes of the text, so a character outside ASCII is reported by its
first byte.
-/

namespace TupleBlob

namespace Text

/-- The code points that have the property White_Space, as closed ranges. -/
def blankRanges : List (Nat × Nat) :=
  [(0x9, 0xD), (0x20, 0x20), (0x85, 0x85), (0xA0, 0xA0), (0x1680, 0x1680), (0x2000, 0x200A),
    (0x2028, 0x2029), (0x202F, 0x202F), (0x205F, 0x205F), (0x3000, 0x3000)]

def isBlank (c : Char) : Bool :=
  blankRanges.any fun (low, high) => low ≤ c.toNat && c.toNat ≤ high

/-- Drops the blank characters at both ends. -/
def trim (text : List Char) : List Char :=
  ((text.dropWhile isBlank).reverse.dropWhile isBlank).reverse

end Text

/-! ## Decimal numerals of words -/

namespace Numeral

inductive Fault
  | empty
  | badDigit
  | outOfRange (cause : Word.RangeFault)
deriving DecidableEq, Repr

def Fault.message : Fault → String
  | .empty => "cannot parse integer from empty string"
  | .badDigit => "invalid digit found in string"
  | .outOfRange cause => cause.message

def digit? (c : Char) : Option Nat :=
  if c.isDigit then some (c.toNat - 0x30) else none

/-- Reads digits after the number `sum`, each pushing it further away from zero. -/
def readDigits (negative : Bool) (sum : Word) : List Char → Except Fault Word
  | [] => .ok sum
  | c :: rest =>
    match digit? c with
    | none => .error .badDigit
    | some d =>
      match Word.ofInt (sum.toInt * 10 + (if negative then -(d : Int) else d)) with
      | .error cause => .error (.outOfRange cause)
      | .ok sum => readDigits negative sum rest

def read : List Char → Except Fault Word
  | [] => .error .empty
  | c :: rest =>
    if c = '-' ∨ c = '+' then
      if rest.isEmpty then .error .badDigit else readDigits (c = '-') 0 rest
    else readDigits false 0 (c :: rest)

def ofText (text : String) : Except Fault Word :=
  read (Text.trim text.toList)

def toText (word : Word) : String :=
  toString word.toInt

end Numeral

/-! ## Hexadecimal text of bytes -/

namespace Hex

inductive Fault
  | oddDigits
  | badDigit (byte : UInt8) (index : Nat)
deriving DecidableEq, Repr

/-- A bad byte is shown as the character with the same number. -/
def Fault.message : Fault → String
  | .oddDigits => "Odd number of digits"
  | .badDigit byte index =>
    "Invalid character " ++ Text.quoteChar (.ofNat byte.toNat) ++ " at position " ++ toString index

def digit (n : Nat) : Char :=
  .ofNat (if n < 10 then 0x30 + n else 0x57 + n)

/-- The number that the byte of a digit stands for. -/
def value? (byte : UInt8) : Option Nat :=
  let n := byte.toNat
  if 0x30 ≤ n ∧ n ≤ 0x39 then some (n - 0x30)
  else if 0x61 ≤ n ∧ n ≤ 0x66 then some (n - 0x57)
  else if 0x41 ≤ n ∧ n ≤ 0x46 then some (n - 0x37)
  else none

def encodeByte (byte : UInt8) : List Char :=
  [digit (byte.toNat / 16), digit (byte.toNat % 16)]

def encodeBytes (bytes : Bytes) : List Char :=
  bytes.flatMap encodeByte

def encode (bytes : Bytes) : String :=
  String.ofList (encodeBytes bytes)

/-- Reads pairs of digits, the first of which stands at `index`. -/
def decodePairs (index : Nat) : Bytes → Except Fault Bytes
  | high :: low :: rest =>
    match value? high, value? low with
    | none, _ => .error (.badDigit high index)
    | some _, none => .error (.badDigit low (index + 1))
    | some h, some l => (decodePairs (index + 2) rest).map (.ofNat (h * 16 + l) :: ·)
  | _ => .ok []

def decode (text : String) : Except Fault Bytes :=
  let digits := Utf8.encode text
  if digits.length % 2 = 1 then .error .oddDigits else decodePairs 0 digits

theorem value?_digit {n : Nat} (h : n < 16) : value? (.ofNat (digit n).toNat) = some n := by
  revert n
  decide

end Hex

end TupleBlob
