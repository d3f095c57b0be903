/-
# Addresses as text

An address is written as `0x` and upper-case hexadecimal digits. When one is read, `0x` is
dropped from the front as often as it stands there, then `0X` likewise, and the rest must
be a numeral below `2 ^ 64`.
-/

import BinaryPatch.Text.Numeral

namespace BinaryPatch
namespace Address

/-- Drop `0` and the given letter from the front as often as they stand there. -/
def dropMarks (letter : Char) : List Char → List Char
  | '0' :: x :: rest => if x = letter then dropMarks letter rest else '0' :: x :: rest
  | s => s

/-- Read an address. -/
def parse (text : String) : Except Text.NumeralFault UInt64 :=
  (Text.readHex 64 (dropMarks 'X' (dropMarks 'x' text.toList))).map UInt64.ofNat

/-- Write an address. -/
def format (address : UInt64) : String := "0x" ++ Text.upperHex address.toNat

end Address
end BinaryPatch
