import TupleBlob.Json.Basic
import TupleBlob.Utf8

/-! # Reading JSON text

A reader for each part of the grammar, working on the characters that remain. Arrays and objects
may be nested as deep as an allowance says. Only blanks may follow the value. The loops over
characters, items and fields take a character at least each time, so one more than the number of
characters is fuel enough for all of them.

A fault names the defect and its place. Places are counted in bytes: a defect is found where the
reader stands, or one byte further on where the reader has looked at that byte.
-/

namespace TupleBlob.Json

/-- What makes a text no JSON. -/
inductive Defect
  | endInArray
  | endInObject
  | endInString
  | endInValue
  | noColon
  /-- Neither a comma nor the end of the array follows an item. -/
  | unclosedArray
  /-- Neither a comma nor the end of the object follows a field. -/
  | unclosedObject
  | badWord
  | noValue
  | badEscape
  | badNumber
  | numberTooLarge
  | controlCharacter
  | badKey
  /-- A surrogate is escaped that is not the high one of a pair, or not the low one. -/
  | loneSurrogate
  /-- The escape of a high surrogate is not followed by another escape. -/
  | openSurrogate
  | trailingComma
  | trailingCharacters
  | tooDeep
deriving DecidableEq, Repr

/-- Whether the text ends inside a value. -/
def Defect.isEnd : Defect → Bool
  | .endInArray | .endInObject | .endInString | .endInValue => true
  | _ => false

def Defect.message : Defect → String
  | .endInArray => "EOF while parsing a list"
  | .endInObject => "EOF while parsing an object"
  | .endInString => "EOF while parsing a string"
  | .endInValue => "EOF while parsing a value"
  | .noColon => "expected `:`"
  | .unclosedArray => "expected `,` or `]`"
  | .unclosedObject => "expected `,` or `\x7d`"
  | .badWord => "expected ident"
  | .noValue => "expected value"
  | .badEscape => "invalid escape"
  | .badNumber => "invalid number"
  | .numberTooLarge => "number out of range"
  | .controlCharacter => "control character (\\u0000-\\u001F) found while parsing a string"
  | .badKey => "key must be a string"
  | .loneSurrogate => "lone leading surrogate in hex escape"
  | .openSurrogate => "unexpected end of hex escape"
  | .trailingComma => "trailing comma"
  | .trailingCharacters => "trailing characters"
  | .tooDeep => "recursion limit exceeded"

/-- A defect and the number of bytes that the text has behind its place. -/
structure Snag where
  defect : Defect
  left : Nat
deriving DecidableEq, Repr

/-- What reading a part of a text gives: the part read and the characters after it. -/
abbrev Scan (α : Type) := Except Snag (α × List Char)

namespace Snag

/-- A defect where the reader stands before `rest`. -/
def before (rest : List Char) (defect : Defect) : Snag :=
  ⟨defect, (Utf8.encodeChars rest).length⟩

/-- A defect behind the first byte of `rest`, or at the end where there is none. -/
def behind (rest : List Char) (defect : Defect) : Snag :=
  ⟨defect, (Utf8.encodeChars rest).length - 1⟩

/-- A defect at the end of the text. -/
def atEnd (defect : Defect) : Snag := ⟨defect, 0⟩

/-- The defect where a digit was needed but `rest` follows. -/
def noDigit (rest : List Char) : Snag :=
  behind rest (if rest.isEmpty then .endInValue else .badNumber)

end Snag

/-! ## Numbers

A literal that is a whole number stays one while it fits 64 bits, unsigned when positive and signed
when negative; every other literal, and `-0`, is a double. The digits of a double are gathered into
a significand of 64 bits. Digits of the whole part that no longer fit count into the exponent, and
digits of the fraction that do not fit are left out. An exponent past 32 bits makes any number but
zero too large, or zero.
-/

/-- The largest significand, and the largest whole number. -/
def maxSignificand : Nat := 18446744073709551615

/-- The size of the smallest negative whole number. -/
def maxNegative : Nat := 9223372036854775808

/-- Appends digits to a significand while it fits. Gives the digits left over. -/
def absorb (significand : Nat) : List Char → Nat × List Char
  | [] => (significand, [])
  | c :: rest =>
    let next := significand * 10 + (c.toNat - 0x30)
    if next ≤ maxSignificand then absorb next rest else (significand, c :: rest)

def spanDigits (cs : List Char) : List Char × List Char :=
  (cs.takeWhile Char.isDigit, cs.dropWhile Char.isDigit)

/-- The double that a literal before `rest` stands for. -/
def toDouble (negative : Bool) (significand : Nat) (exponent : Int) (rest : List Char) :
    Scan Number :=
  match Double.ofDecimal? significand exponent with
  | some units => .ok (.double ⟨negative, units⟩, rest)
  | none => .error (.before rest .numberTooLarge)

/-- The largest size of an exponent. -/
def maxExponent : Nat := 2147483647

/-- Reads the digits of an exponent after the number `sum`. Where they make it too large, gives the
characters after the digit that does. -/
def readExponent (sum : Nat) : List Char → Except (List Char) (Nat × List Char)
  | [] => .ok (sum, [])
  | c :: rest =>
    if c.isDigit then
      let next := sum * 10 + (c.toNat - 0x30)
      if next ≤ maxExponent then readExponent next rest else .error rest
    else .ok (sum, c :: rest)

/-- Reads the digits of an exponent, which is added to or taken from the one that the digits before
it call for. -/
def scanExponent (negative : Bool) (significand : Nat) (exponent : Int) (below : Bool)
    (cs : List Char) : Scan Number :=
  if (spanDigits cs).1.isEmpty then .error (.noDigit cs)
  else
    match readExponent 0 cs with
    | .ok (size, rest) =>
      toDouble negative significand (if below then exponent - size else exponent + size) rest
    | .error rest =>
      if significand ≠ 0 ∧ !below then .error (.before rest .numberTooLarge)
      else .ok (.double ⟨negative, 0⟩, (spanDigits rest).2)

/-- Reads an exponent if one follows; `exponent` is what the digits so far call for. -/
def scanScaled (negative : Bool) (significand : Nat) (exponent : Int) (cs : List Char) :
    Scan Number :=
  match cs with
  | c :: rest =>
    if c = 'e' ∨ c = 'E' then
      match rest with
      | '+' :: rest => scanExponent negative significand exponent false rest
      | '-' :: rest => scanExponent negative significand exponent true rest
      | rest => scanExponent negative significand exponent false rest
    else toDouble negative significand exponent cs
  | [] => toDouble negative significand exponent []

def scanFraction (negative : Bool) (significand : Nat) (exponent : Int) (cs : List Char) :
    Scan Number :=
  let (digits, rest) := spanDigits cs
  if digits.isEmpty then .error (.noDigit rest)
  else
    let (significand, left) := absorb significand digits
    scanScaled negative significand (exponent - (digits.length - left.length : Nat)) rest

/-- The number that a literal of a whole number before `rest` stands for. -/
def ofWhole (negative : Bool) (significand : Nat) (rest : List Char) : Scan Number :=
  if !negative then .ok (.int significand, rest)
  else if 0 < significand ∧ significand ≤ maxNegative then .ok (.int (-significand), rest)
  else toDouble true significand 0 rest

/-- Reads what follows the digits of the whole part, of which `left` did not fit. -/
def scanAfterWhole (negative : Bool) (significand : Nat) (left cs : List Char) : Scan Number :=
  match cs with
  | c :: rest =>
    if c = '.' then scanFraction negative significand left.length rest
    else if c = 'e' ∨ c = 'E' ∨ !left.isEmpty then scanScaled negative significand left.length cs
    else ofWhole negative significand cs
  | [] =>
    if left.isEmpty then ofWhole negative significand []
    else scanScaled negative significand left.length []

/-- Reads a number after its sign. A zero may open the whole part only when it is all of it. -/
def scanMagnitude (negative : Bool) (cs : List Char) : Scan Number :=
  let (digits, rest) := spanDigits cs
  match digits with
  | [] => .error (.noDigit rest)
  | '0' :: _ :: others => .error (.before (others ++ rest) .badNumber)
  | digits =>
    let (significand, left) := absorb 0 digits
    scanAfterWhole negative significand left rest

/-! ## Blanks and words -/

def isBlank (c : Char) : Bool :=
  c = ' ' || c = '\n' || c = '\t' || c = '\r'

def skipBlanks (cs : List Char) : List Char :=
  cs.dropWhile isBlank

/-- Reads a word. The text may end inside it, which is the defect `ended`, or go on in another way,
which is the defect `other`. -/
def scanWord (ended other : Defect) : (word cs : List Char) → Except Snag (List Char)
  | [], cs => .ok cs
  | _ :: _, [] => .error (.atEnd ended)
  | w :: word, c :: cs =>
    if w = c then scanWord ended other word cs else .error (.behind (c :: cs) other)

/-! ## Strings -/

def hexDigit? (c : Char) : Option Nat :=
  if c.isDigit then some (c.toNat - 0x30)
  else if 'a' ≤ c ∧ c ≤ 'f' then some (c.toNat - 0x57)
  else if 'A' ≤ c ∧ c ≤ 'F' then some (c.toNat - 0x37)
  else none

def hexUnit? (a b c d : Char) : Option Nat :=
  match hexDigit? a, hexDigit? b, hexDigit? c, hexDigit? d with
  | some a, some b, some c, some d => some (((a * 16 + b) * 16 + c) * 16 + d)
  | _, _, _, _ => none

/-- The defect where four hexadecimal digits were needed. The text counts as ended when fewer than
four bytes of it are left. -/
def badUnit (rest : List Char) : Snag :=
  let left := (Utf8.encodeChars rest).length
  if left < 4 then .atEnd .endInString else ⟨.badEscape, left - 4⟩

def scanUnit (cs : List Char) : Scan Nat :=
  match cs with
  | a :: b :: c :: d :: rest =>
    match hexUnit? a b c d with
    | some unit => .ok (unit, rest)
    | none => .error (badUnit cs)
  | _ => .error (badUnit cs)

def isHighSurrogate (n : Nat) : Bool :=
  0xD800 ≤ n && n ≤ 0xDBFF

def isLowSurrogate (n : Nat) : Bool :=
  0xDC00 ≤ n && n ≤ 0xDFFF

/-- The character that two surrogates stand for. -/
def ofSurrogates (high low : Nat) : Char :=
  .ofNat (0x10000 + (high - 0xD800) * 0x400 + (low - 0xDC00))

/-- Reads the escape of a low surrogate after a high one. -/
def scanLowSurrogate (high : Nat) (cs : List Char) : Scan Char :=
  match scanWord .endInString .openSurrogate ['\\', 'u'] cs with
  | .error snag => .error snag
  | .ok rest =>
    match scanUnit rest with
    | .error snag => .error snag
    | .ok (low, rest) =>
      if isLowSurrogate low then .ok (ofSurrogates high low, rest)
      else .error (.before rest .loneSurrogate)

/-- What an escape of one letter stands for. -/
def unescape? (c : Char) : Option Char :=
  if c = '"' ∨ c = '\\' ∨ c = '/' then some c
  else if c = 'b' then some '\x08'
  else if c = 'f' then some '\x0c'
  else if c = 'n' then some '\n'
  else if c = 'r' then some '\r'
  else if c = 't' then some '\t'
  else none

/-- Reads an escape after its backslash. -/
def scanEscape : List Char → Scan Char
  | [] => .error (.atEnd .endInString)
  | c :: rest =>
    if c = 'u' then
      match scanUnit rest with
      | .error snag => .error snag
      | .ok (unit, rest) =>
        if isLowSurrogate unit then .error (.before rest .loneSurrogate)
        else if isHighSurrogate unit then scanLowSurrogate unit rest
        else .ok (.ofNat unit, rest)
    else
      match unescape? c with
      | some c => .ok (c, rest)
      | none => .error (.behind (c :: rest) .badEscape)

/-- Reads a string after its opening quote; `done` holds its characters so far, the last first. -/
def scanString : (fuel : Nat) → (done : List Char) → List Char → Scan String
  | 0, _, _ => .error (.atEnd .endInString)
  | _, _, [] => .error (.atEnd .endInString)
  | fuel + 1, done, c :: rest =>
    if c = '"' then .ok (String.ofList done.reverse, rest)
    else if c = '\\' then
      match scanEscape rest with
      | .error snag => .error snag
      | .ok (c, rest) => scanString fuel (c :: done) rest
    else if c < ' ' then .error (.before rest .controlCharacter)
    else scanString fuel (c :: done) rest

/-! ## Arrays and objects -/

/-- Reads the items of an array up to its closing bracket, from the start of an item on. -/
def scanItems (item : List Char → Scan Json) : (fuel : Nat) → List Char → Scan (List Json)
  | 0, _ => .error (.atEnd .endInArray)
  | fuel + 1, cs =>
    match item cs with
    | .error snag => .error snag
    | .ok (first, cs) =>
      match skipBlanks cs with
      | [] => .error (.atEnd .endInArray)
      | c :: cs =>
        if c = ']' then .ok ([first], cs)
        else if c = ',' then
          match skipBlanks cs with
          | ']' :: rest => .error (.before rest .trailingComma)
          | cs =>
            match scanItems item fuel cs with
            | .error snag => .error snag
            | .ok (items, cs) => .ok (first :: items, cs)
        else .error (.behind (c :: cs) .unclosedArray)

def scanArray (fuel : Nat) (item : List Char → Scan Json) (cs : List Char) : Scan Json :=
  match skipBlanks cs with
  | [] => .error (.atEnd .endInArray)
  | c :: rest =>
    if c = ']' then .ok (.arr [], rest)
    else (scanItems item fuel (c :: rest)).map fun (items, cs) => (.arr items, cs)

/-- Reads a field, where the end of the object has been ruled out or follows a comma. -/
def scanField (fuel : Nat) (value : List Char → Scan Json) (cs : List Char) :
    Scan (String × Json) :=
  match skipBlanks cs with
  | [] => .error (.atEnd .endInValue)
  | c :: rest =>
    if c = '"' then
      match scanString fuel [] rest with
      | .error snag => .error snag
      | .ok (key, cs) =>
        match scanWord .endInObject .noColon [':'] (skipBlanks cs) with
        | .error snag => .error snag
        | .ok cs => (value cs).map fun (item, cs) => ((key, item), cs)
    else .error (.behind (c :: rest) (if c = '\x7d' then .trailingComma else .badKey))

/-- Reads the fields of an object up to its closing brace, from the start of a field on. -/
def scanFields (field : List Char → Scan (String × Json)) :
    (fuel : Nat) → List Char → Scan (List (String × Json))
  | 0, _ => .error (.atEnd .endInObject)
  | fuel + 1, cs =>
    match field cs with
    | .error snag => .error snag
    | .ok (first, cs) =>
      match skipBlanks cs with
      | [] => .error (.atEnd .endInObject)
      | c :: cs =>
        if c = '\x7d' then .ok ([first], cs)
        else if c = ',' then
          match scanFields field fuel cs with
          | .error snag => .error snag
          | .ok (fields, cs) => .ok (first :: fields, cs)
        else .error (.behind (c :: cs) .unclosedObject)

def scanObject (fuel : Nat) (value : List Char → Scan Json) (cs : List Char) : Scan Json :=
  match skipBlanks cs with
  | [] => .error (.atEnd .endInObject)
  | c :: rest =>
    if c = '\x7d' then .ok (.obj [], rest)
    else (scanFields (scanField fuel value) fuel (c :: rest)).map fun (fields, cs) =>
      (ofFields fields, cs)

/-! ## Values -/

/-- Reads a value; `inner` reads the values inside it, if they may be there. -/
def scanValueWith (fuel : Nat) (inner : Option (List Char → Scan Json)) (cs : List Char) :
    Scan Json :=
  match skipBlanks cs with
  | [] => .error (.atEnd .endInValue)
  | c :: rest =>
    if c = 'n' then (scanWord .endInValue .badWord "ull".toList rest).map (.null, ·)
    else if c = 't' then (scanWord .endInValue .badWord "rue".toList rest).map (.bool true, ·)
    else if c = 'f' then (scanWord .endInValue .badWord "alse".toList rest).map (.bool false, ·)
    else if c = '-' then (scanMagnitude true rest).map fun (n, cs) => (.num n, cs)
    else if c.isDigit then (scanMagnitude false (c :: rest)).map fun (n, cs) => (.num n, cs)
    else if c = '"' then (scanString fuel [] rest).map fun (s, cs) => (.str s, cs)
    else if c = '[' ∨ c = '\x7b' then
      match inner with
      | none => .error (.behind (c :: rest) .tooDeep)
      | some value => if c = '[' then scanArray fuel value rest else scanObject fuel value rest
    else .error (.behind (c :: rest) .noValue)

/-- Reads a value in which arrays and objects are nested at most `allowance` deep. -/
def scanValue (fuel : Nat) : (allowance : Nat) → List Char → Scan Json
  | 0 => scanValueWith fuel none
  | allowance + 1 => scanValueWith fuel (some (scanValue fuel allowance))

/-! ## Texts -/

/-- Why a text is not JSON: its first defect, and the place of it. Lines are counted from one, and
columns in bytes. -/
structure TextFault where
  defect : Defect
  line : Nat
  column : Nat
deriving DecidableEq, Repr

namespace TextFault

/-- The fault of a text in which reading met a snag. -/
def ofSnag (text : String) (snag : Snag) : TextFault :=
  let before := (Utf8.encode text).reverse.drop snag.left
  ⟨snag.defect, before.count 0x0A + 1, (before.takeWhile (· ≠ 0x0A)).length⟩

def message (fault : TextFault) : String :=
  s!"{fault.defect.message} at line {fault.line} column {fault.column}"

end TextFault

/-- Reads a text that is one value, nested at most `allowance` deep, and blanks around it. -/
def parseNested (allowance : Nat) (text : String) : Except TextFault Json :=
  let cs := text.toList
  match scanValue (cs.length + 1) allowance cs with
  | .error snag => .error (.ofSnag text snag)
  | .ok (json, rest) =>
    match skipBlanks rest with
    | [] => .ok json
    | rest => .error (.ofSnag text (.behind rest .trailingCharacters))

/-- How deep arrays and objects may be nested in a text. -/
def maxNesting : Nat := 127

def parse (text : String) : Except TextFault Json :=
  parseNested maxNesting text

end TupleBlob.Json
