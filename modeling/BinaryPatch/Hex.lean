/-
# Byte strings as text

Bytes are written as two upper-case digits each, joined by single spaces: `00 DC 05`.
Reading is more liberal: white space is dropped wherever it stands, and what remains must
be ASCII, of even length, and a numeral below 256 in each pair.
-/

import BinaryPatch.Text.Blank
import BinaryPatch.Text.Numeral

namespace BinaryPatch

/-- Why a text is no byte string. -/
inductive HexFault where
  /-- A character outside ASCII stands in the text. -/
  | notAscii (text : String)
  /-- The digits do not pair up. -/
  | oddDigits (text : String)
  /-- A pair is no numeral. -/
  | badPair (pair : String) (cause : Text.NumeralFault)
  deriving DecidableEq

namespace HexFault

/-- The wording of each fault. -/
def message : HexFault → String
  | notAscii text => s!"non-ASCII input '{text}'"
  | oddDigits text => s!"odd number of hex digits in '{text}'"
  | badPair pair cause => s!"invalid hex byte '{pair}': {cause.message}"

end HexFault

namespace Hex

/-- Read digits two by two. A digit left over is ignored: the caller has counted them. -/
def readPairs : List Char → Except HexFault (List UInt8)
  | a :: b :: rest =>
    match Text.readHex 8 [a, b] with
    | .error cause => .error (.badPair (String.ofList [a, b]) cause)
    | .ok value => (readPairs rest).map (UInt8.ofNat value :: ·)
  | _ => .ok []

/-- Read a byte string. -/
def parse (text : String) : Except HexFault (List UInt8) :=
  let digits := Text.dense text.toList
  if digits.any fun c => 128 ≤ c.toNat then .error (.notAscii text)
  else if digits.length % 2 = 1 then .error (.oddDigits text)
  else readPairs digits

/-- The two digits of a byte. -/
def byteDigits (b : UInt8) : List Char :=
  [Text.upperDigit (b.toNat / 16), Text.upperDigit (b.toNat % 16)]

/-- Write a byte string, a space between two bytes. -/
def formatChars : List UInt8 → List Char
  | [] => []
  | [b] => byteDigits b
  | b :: rest => byteDigits b ++ ' ' :: formatChars rest

/-- Write a byte string. -/
def format (bytes : List UInt8) : String := String.ofList (formatChars bytes)

/-- Write at most `limit` bytes of a byte string, and count those left out. -/
def formatTruncated (bytes : List UInt8) (limit : Nat) : String :=
  if bytes.length ≤ limit then format bytes
  else s!"{format (bytes.take limit)} ... (+{bytes.length - limit} bytes)"

end Hex
end BinaryPatch
