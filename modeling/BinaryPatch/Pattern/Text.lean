/-
# Patterns as text

A pattern is written as words: `??` for a wildcard, two upper-case digits for a literal.
When one is read, `?` is a wildcard too and a literal is any numeral below 256. A pattern
needs a literal, so the empty one and those of wildcards alone are refused.
-/

import BinaryPatch.Hex
import BinaryPatch.Pattern.Basic

namespace BinaryPatch

/-- Why a text is no pattern. -/
inductive PatternFault where
  /-- A word is neither a wildcard nor a numeral. -/
  | badWord (word : String) (cause : Text.NumeralFault)
  /-- There are no words. -/
  | empty
  /-- Every word is a wildcard. -/
  | noLiteral (text : String)
  deriving DecidableEq

namespace PatternFault

/-- The wording of each fault. -/
def message : PatternFault → String
  | badWord word cause => s!"Invalid signature token '{word}': {cause.message}"
  | empty => "Signature pattern is empty"
  | noLiteral text => s!"Signature '{text}' has no literal bytes"

end PatternFault

namespace Pattern

/-- Read one cell. -/
def readCell (word : List Char) : Except PatternFault Cell :=
  if word = ['?'] ∨ word = ['?', '?'] then .ok none
  else
    match Text.readHex 8 word with
    | .error cause => .error (.badWord (String.ofList word) cause)
    | .ok value => .ok (some (UInt8.ofNat value))

/-- Read cells up to the first word that is none. -/
def readCells : List (List Char) → Except PatternFault Pattern
  | [] => .ok []
  | word :: rest =>
    match readCell word with
    | .error fault => .error fault
    | .ok cell => (readCells rest).map (cell :: ·)

/-- Read a pattern. -/
def parse (text : String) : Except PatternFault Pattern :=
  match readCells (Text.words text.toList) with
  | .error fault => .error fault
  | .ok cells =>
    if cells.isEmpty then .error .empty
    else if cells.all Option.isNone then .error (.noLiteral text)
    else .ok cells

/-- Write one cell. -/
def cellChars : Cell → List Char
  | some b => Hex.byteDigits b
  | none => ['?', '?']

/-- Write a pattern, a space between two cells. -/
def formatChars : Pattern → List Char
  | [] => []
  | [c] => cellChars c
  | c :: rest => cellChars c ++ ' ' :: formatChars rest

/-- Write a pattern. -/
def format (p : Pattern) : String := String.ofList (formatChars p)

end Pattern
end BinaryPatch
