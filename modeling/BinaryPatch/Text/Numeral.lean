/-
# Hexadecimal numerals

Reading a numeral of bounded width and writing one. A reader meets the digits from left
to right and stops at the first thing wrong, so the fault it names is the first one:

| text | fault |
| --- | --- |
| nothing at all | `empty` |
| a lone sign, or a character that is no digit | `invalidDigit` |
| a value of more than the given bits | `tooLarge` |

One leading `+` is accepted; `-` never is.
-/

namespace BinaryPatch
namespace Text

/-- Why a text is no numeral of the wanted width. -/
inductive NumeralFault where
  | empty
  | invalidDigit
  | tooLarge
  deriving DecidableEq

namespace NumeralFault

/-- The wording of each fault. -/
def message : NumeralFault → String
  | empty => "cannot parse integer from empty string"
  | invalidDigit => "invalid digit found in string"
  | tooLarge => "number too large to fit in target type"

end NumeralFault

/-- The value of a hexadecimal digit of either case. -/
def hexDigit? (c : Char) : Option Nat :=
  if '0' ≤ c ∧ c ≤ '9' then some (c.toNat - '0'.toNat)
  else if 'a' ≤ c ∧ c ≤ 'f' then some (c.toNat - 'a'.toNat + 10)
  else if 'A' ≤ c ∧ c ≤ 'F' then some (c.toNat - 'A'.toNat + 10)
  else none

/-- Read digits after a value already read, keeping below `2 ^ bits`. -/
def readHexDigits (bits : Nat) (value : Nat) : List Char → Except NumeralFault Nat
  | [] => .ok value
  | c :: rest =>
    match hexDigit? c with
    | none => .error .invalidDigit
    | some d =>
      if value * 16 + d < 2 ^ bits then readHexDigits bits (value * 16 + d) rest
      else .error .tooLarge

/-- Read a hexadecimal numeral below `2 ^ bits`. -/
def readHex (bits : Nat) : List Char → Except NumeralFault Nat
  | [] => .error .empty
  | ['+'] => .error .invalidDigit
  | '+' :: digits => readHexDigits bits 0 digits
  | digits => readHexDigits bits 0 digits

/-- The upper-case digit of a value below sixteen. -/
def upperDigit (n : Nat) : Char :=
  if n < 10 then Char.ofNat ('0'.toNat + n) else Char.ofNat ('A'.toNat + (n - 10))

/-- The lower-case digit of a value below sixteen. -/
def lowerDigit (n : Nat) : Char :=
  if n < 10 then Char.ofNat ('0'.toNat + n) else Char.ofNat ('a'.toNat + (n - 10))

/-- The digits of a number in base sixteen, most significant first. -/
def hexDigits (digit : Nat → Char) (n : Nat) : List Char :=
  if n < 16 then [digit n] else hexDigits digit (n / 16) ++ [digit (n % 16)]
termination_by n

/-- A number in upper-case hexadecimal. -/
def upperHex (n : Nat) : String := String.ofList (hexDigits upperDigit n)

/-- A number in lower-case hexadecimal behind `0x`. -/
def lowerHex (n : Nat) : String := "0x" ++ String.ofList (hexDigits lowerDigit n)

/-- A signed number in lower-case hexadecimal, its sign always written. -/
def signedHex (n : Int) : String :=
  if n < 0 then "-" ++ lowerHex n.natAbs else "+" ++ lowerHex n.natAbs

end Text
end BinaryPatch
