import TupleBlob.Bytes

/-! # UTF-8

Encoding and decoding of text. A sequence of two to four bytes opens with a byte that tells its
length, and the second byte may only lie in the range that leaves no shorter form, no surrogate
and no code point past U+10FFFF. A fault names the index where its sequence starts and how many
bytes of that sequence could still have opened a character.
-/

namespace TupleBlob.Utf8

inductive Fault
  | invalid (index length : Nat)
  | incomplete (index : Nat)
deriving DecidableEq, Repr

def Fault.message : Fault → String
  | .invalid index length =>
    "invalid utf-8 sequence of " ++ toString length ++ " bytes from index " ++ toString index
  | .incomplete index => "incomplete utf-8 byte sequence from index " ++ toString index

/-! ## Encoding -/

def encodeChar (c : Char) : Bytes :=
  let n := c.toNat
  if n < 0x80 then [.ofNat n]
  else if n < 0x800 then [.ofNat (0xC0 + n / 0x40), .ofNat (0x80 + n % 0x40)]
  else if n < 0x10000 then
    [.ofNat (0xE0 + n / 0x1000), .ofNat (0x80 + n / 0x40 % 0x40), .ofNat (0x80 + n % 0x40)]
  else
    [.ofNat (0xF0 + n / 0x40000), .ofNat (0x80 + n / 0x1000 % 0x40),
      .ofNat (0x80 + n / 0x40 % 0x40), .ofNat (0x80 + n % 0x40)]

def encodeChars (chars : List Char) : Bytes :=
  chars.flatMap encodeChar

def encode (text : String) : Bytes :=
  encodeChars text.toList

/-! ## Decoding -/

/-- Whether a byte may stand at the third or fourth place of a sequence. -/
def isContinuation (b : UInt8) : Bool :=
  0x80 ≤ b && b ≤ 0xBF

/-- Whether the byte `b` may come second in a sequence that opens with `a`. -/
def mayFollow (a b : UInt8) : Bool :=
  if a = 0xE0 then 0xA0 ≤ b && b ≤ 0xBF
  else if a = 0xED then 0x80 ≤ b && b ≤ 0x9F
  else if a = 0xF0 then 0x90 ≤ b && b ≤ 0xBF
  else if a = 0xF4 then 0x80 ≤ b && b ≤ 0x8F
  else isContinuation b

def ofTwo (a b : UInt8) : Char :=
  .ofNat (a.toNat % 0x20 * 0x40 + b.toNat % 0x40)

def ofThree (a b c : UInt8) : Char :=
  .ofNat ((a.toNat % 0x10 * 0x40 + b.toNat % 0x40) * 0x40 + c.toNat % 0x40)

def ofFour (a b c d : UInt8) : Char :=
  .ofNat (((a.toNat % 0x8 * 0x40 + b.toNat % 0x40) * 0x40 + c.toNat % 0x40) * 0x40
    + d.toNat % 0x40)

/-- Decodes bytes of which the first stands at `index`. -/
def decodeFrom (index : Nat) : Bytes → Except Fault (List Char)
  | [] => .ok []
  | a :: rest =>
    if a < 0x80 then (decodeFrom (index + 1) rest).map (.ofNat a.toNat :: ·)
    else if a < 0xC2 || 0xF4 < a then .error (.invalid index 1)
    else match rest with
      | [] => .error (.incomplete index)
      | b :: rest =>
        if !mayFollow a b then .error (.invalid index 1)
        else if a < 0xE0 then (decodeFrom (index + 2) rest).map (ofTwo a b :: ·)
        else match rest with
          | [] => .error (.incomplete index)
          | c :: rest =>
            if !isContinuation c then .error (.invalid index 2)
            else if a < 0xF0 then (decodeFrom (index + 3) rest).map (ofThree a b c :: ·)
            else match rest with
              | [] => .error (.incomplete index)
              | d :: rest =>
                if !isContinuation d then .error (.invalid index 3)
                else (decodeFrom (index + 4) rest).map (ofFour a b c d :: ·)

def decode (bytes : Bytes) : Except Fault String :=
  (decodeFrom 0 bytes).map String.ofList

end TupleBlob.Utf8
