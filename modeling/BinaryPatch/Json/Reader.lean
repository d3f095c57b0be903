/-
# Reading JSON

`parse` reads the whole text as one value and says whether anything but white space follows
it. A text that stops being JSON is read up to that place, where the tree holds a `broken`
leaf; nothing behind it is read.
-/

import BinaryPatch.Json.Value
import BinaryPatch.Text.Numeral

namespace BinaryPatch
namespace Json

/-- A text without the JSON white space at its start. -/
def skipSpace (s : List Char) : List Char :=
  s.dropWhile fun c => c == ' ' || c == '\n' || c == '\t' || c == '\r'

/-- The value of four hexadecimal digits. -/
def codeUnit? (a b c d : Char) : Option Nat := do
  let a ← Text.hexDigit? a
  let b ← Text.hexDigit? b
  let c ← Text.hexDigit? c
  let d ← Text.hexDigit? d
  return ((a * 16 + b) * 16 + c) * 16 + d

/-- The character of a one-letter escape. -/
def shortEscape? (c : Char) : Option Char :=
  if c = '"' ∨ c = '\\' ∨ c = '/' then some c
  else if c = 'b' then some '\x08'
  else if c = 'f' then some '\x0c'
  else if c = 'n' then some '\n'
  else if c = 'r' then some '\r'
  else if c = 't' then some '\t'
  else none

/-- A piece of a string: a character, or half of a surrogate pair. -/
inductive Piece where
  | char (c : Char)
  | half (unit : Nat)

namespace Piece

/-- The piece that a code unit is. -/
def ofUnit (unit : Nat) : Piece :=
  if 0xD800 ≤ unit ∧ unit ≤ 0xDFFF then half unit else char (Char.ofNat unit)

/-- The characters of a string, if every half of a surrogate pair has its partner. -/
def join : List Piece → Option (List Char)
  | [] => some []
  | char c :: rest => (join rest).map (c :: ·)
  | half high :: half low :: rest =>
    if high < 0xDC00 ∧ 0xDC00 ≤ low then
      (join rest).map (Char.ofNat (0x10000 + (high - 0xD800) * 0x400 + (low - 0xDC00)) :: ·)
    else none
  | half _ :: _ => none

end Piece

/-- Read a string behind its opening quote: its pieces, and what follows the closing one. -/
def readPieces : List Char → Option (List Piece × List Char)
  | [] => none
  | '"' :: rest => some ([], rest)
  | '\\' :: 'u' :: a :: b :: c :: d :: rest => do
    let unit ← codeUnit? a b c d
    let (pieces, rest) ← readPieces rest
    return (.ofUnit unit :: pieces, rest)
  | '\\' :: c :: rest => do
    let c ← shortEscape? c
    let (pieces, rest) ← readPieces rest
    return (.char c :: pieces, rest)
  | c :: rest =>
    if c.toNat < 0x20 then none
    else do
      let (pieces, rest) ← readPieces rest
      return (.char c :: pieces, rest)

/-- Split the decimal digits off the start of a text. -/
def splitDigits (s : List Char) : List Char × List Char := s.span Char.isDigit

/-- The part of a number behind its integer digits: the characters of its fraction and
exponent, and what follows. -/
def readFraction (s : List Char) : Option (List Char × List Char) :=
  let exponent := fun (lead : List Char) (s : List Char) =>
    match s with
    | c :: rest =>
      if c = 'e' ∨ c = 'E' then
        let (sign, rest) :=
          match rest with
          | '+' :: rest => (['+'], rest)
          | '-' :: rest => (['-'], rest)
          | rest => ([], rest)
        match splitDigits rest with
        | ([], _) => none
        | (digits, rest) => some (lead ++ c :: sign ++ digits, rest)
      else some (lead, s)
    | [] => some (lead, s)
  match s with
  | '.' :: rest =>
    match splitDigits rest with
    | ([], _) => none
    | (digits, rest) => exponent ('.' :: digits) rest
  | s => exponent [] s

/-- The value of decimal digits. -/
def decimal (digits : List Char) : Nat :=
  digits.foldl (fun value c => value * 10 + (c.toNat - '0'.toNat)) 0

/-- Read a number. Integers have no superfluous zero in front; a negative zero is none. -/
def readNumber (s : List Char) : Option (Json × List Char) :=
  let (negative, unsigned) :=
    match s with
    | '-' :: rest => (true, rest)
    | s => (false, s)
  let (digits, rest) :=
    match unsigned with
    | '0' :: rest => (['0'], rest)
    | s => splitDigits s
  if digits.isEmpty ∨ (digits = ['0'] ∧ (rest.head?.map Char.isDigit) = some true) then none
  else
    match readFraction rest with
    | none => none
    | some ([], rest) =>
      let value := decimal digits
      if negative then
        if value = 0 then some (.other "-0", rest) else some (.int (-value), rest)
      else some (.int value, rest)
    | some (tail, rest) =>
      let sign := if negative then ['-'] else []
      some (.other (String.ofList (sign ++ digits ++ tail)), rest)

/-- Read the name of a field behind its opening quote, and the colon after it. -/
def readName (s : List Char) : Option (String × List Char) := do
  let (pieces, rest) ← readPieces s
  let chars ← Piece.join pieces
  match skipSpace rest with
  | ':' :: rest => some (String.ofList chars, rest)
  | _ => none

mutual

/-- Read a value. There is no rest once the text has broken off. -/
def readValue : (fuel : Nat) → List Char → Json × Option (List Char)
  | 0, _ => (.broken, none)
  | fuel + 1, s =>
    match skipSpace s with
    | '\x7b' :: rest =>
      match skipSpace rest with
      | '\x7d' :: rest => (.obj [], some rest)
      | rest =>
        let (fields, rest) := readFields fuel rest
        (.obj fields, rest)
    | '[' :: rest =>
      match skipSpace rest with
      | ']' :: rest => (.arr [], some rest)
      | rest =>
        let (items, rest) := readItems fuel rest
        (.arr items, rest)
    | '"' :: rest =>
      match readPieces rest with
      | none => (.broken, none)
      | some (pieces, rest) =>
        match Piece.join pieces with
        | some chars => (.str (String.ofList chars), some rest)
        | none => (.other "", some rest)
    | 'n' :: 'u' :: 'l' :: 'l' :: rest => (.null, some rest)
    | 't' :: 'r' :: 'u' :: 'e' :: rest => (.bool true, some rest)
    | 'f' :: 'a' :: 'l' :: 's' :: 'e' :: rest => (.bool false, some rest)
    | s =>
      match readNumber s with
      | none => (.broken, none)
      | some (number, rest) => (number, some rest)

/-- Read the items of an array that has at least one. -/
def readItems : (fuel : Nat) → List Char → List Json × Option (List Char)
  | 0, _ => ([.broken], none)
  | fuel + 1, s =>
    match readValue fuel s with
    | (item, none) => ([item], none)
    | (item, some rest) =>
      match skipSpace rest with
      | ',' :: rest =>
        let (items, rest) := readItems fuel rest
        (item :: items, rest)
      | ']' :: rest => ([item], some rest)
      | _ => ([item, .broken], none)

/-- Read the fields of an object that has at least one. -/
def readFields : (fuel : Nat) → List Char → List (String × Json) × Option (List Char)
  | 0, _ => ([("", .broken)], none)
  | fuel + 1, s =>
    match skipSpace s with
    | '"' :: rest =>
      match readName rest with
      | none => ([("", .broken)], none)
      | some (name, rest) =>
        match readValue fuel rest with
        | (value, none) => ([(name, value)], none)
        | (value, some rest) =>
          match skipSpace rest with
          | ',' :: rest =>
            let (fields, rest) := readFields fuel rest
            ((name, value) :: fields, rest)
          | '\x7d' :: rest => ([(name, value)], some rest)
          | _ => ([(name, value), ("", .broken)], none)
    | _ => ([("", .broken)], none)

end

/-- What a text holds: a value, and whether it is all there is. -/
structure Document where
  root : Json
  complete : Bool

/-- Read a text. Every step of the reader but one in two takes a character, which bounds
the number of steps. -/
def parse (text : String) : Document :=
  let s := text.toList
  match readValue (2 * s.length + 2) s with
  | (root, none) => ⟨root, false⟩
  | (root, some rest) => ⟨root, (skipSpace rest).isEmpty⟩

end Json
end BinaryPatch
