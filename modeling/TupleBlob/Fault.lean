import TupleBlob.Json.Parser
import TupleBlob.Numeral

/-! # Faults

What can go wrong when blobs are read, written and converted. A fault holds its cause and the
values that its message shows.
-/

namespace TupleBlob

inductive Fault
  | truncatedLength (offset remaining : Nat)
  | truncatedPayload (offset declared remaining : Nat)
  | trailingData (remaining : Nat)
  /-- The size of a payload does not fit a length word. -/
  | oversizedComponent (index size : Nat)
  /-- A literal has more fields than the type of this name has components. -/
  | tooManyFields (type : String) (expected actual : Nat)
  /-- A component's text would not be split off again as one field. -/
  | ambiguousText (index : Nat) (text : String)
  | notAList (json : Json)
  | extraItems (expected : Nat) (items : List Json)
  | missingItems (expected : Nat) (items : List Json)
  | badNumeral (cause : Numeral.Fault)
  /-- A whole JSON number is no word. -/
  | outOfRange (cause : Word.RangeFault)
  | badUtf8 (cause : Utf8.Fault)
  | badHex (cause : Hex.Fault)
  /-- A sink has no room for what is written to it. -/
  | sinkFull
  /-- A JSON string was to hold the text of JSON. -/
  | badJson (cause : Json.TextFault)
  /-- A word is given by a wrong number of bytes. -/
  | wordSize (actual : Nat)
  | notWord (json : Json)
  | notText (json : Json)
  | notAscii
  /-- A JSON string for bytes does not open with `0x`. -/
  | unmarkedBytes (text : String)
  | notBytes (json : Json)
  | notProbe (json : Json)
deriving DecidableEq, Repr

namespace Fault

def message : Fault → String
  | truncatedLength offset remaining =>
    s!"Not enough bytes to read a segment length at offset {offset} ({remaining} remaining)"
  | truncatedPayload offset declared remaining =>
    s!"Not enough bytes to read a segment payload at offset {offset}: declared {declared}, " ++
      s!"{remaining} remaining"
  | trailingData remaining =>
    s!"Invalid remaining data after end of tuple value ({remaining} bytes)"
  | oversizedComponent index size =>
    s!"Component {index} is {size} bytes long, which does not fit a segment length"
  | tooManyFields type expected actual =>
    s!"Invalid tuple literal: too many elements. Type {type} expects {expected} but got {actual}"
  | ambiguousText index text =>
    s!"Text of component {index} cannot be delimited unambiguously: {Text.quote text}"
  | notAList json =>
    s!"Expected a list representation of a tuple, but got a {json.kind}: {json.compact}"
  | extraItems expected items =>
    s!"Tuple contains extra items (expected {expected}, got {items.length}): " ++
      (Json.arr items).compact
  | missingItems expected items =>
    s!"Tuple is missing items (expected {expected}, got {items.length}): " ++
      (Json.arr items).compact
  | badNumeral cause => cause.message
  | outOfRange cause => cause.message
  | badUtf8 cause => cause.message
  | badHex cause => cause.message
  | sinkFull => "failed to write whole buffer"
  | badJson cause => cause.message
  | wordSize actual => s!"Expected 4 bytes for an int32, got {actual}"
  | notWord json => s!"Expected an int32, but got {json.compact}"
  | notText json => s!"Expected a string, but got {json.compact}"
  | notAscii => "Invalid byte for ascii"
  | unmarkedBytes text => s!"Expected a 0x-prefixed blob, but got {text}"
  | notBytes json => s!"Expected a blob string, but got {json.compact}"
  | notProbe json => s!"Expected a hex string, but got {json.compact}"

end Fault

end TupleBlob
