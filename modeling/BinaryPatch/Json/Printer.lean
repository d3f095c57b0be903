/-
# Writing JSON

Documents are written for readers: two spaces of indentation for each level, an item or
field to a line, a space after the colon, nothing between the brackets of an empty array or
object, and no line end after the last line. In strings a quote, a backslash and the control
characters are escaped; everything else stands as it is.
-/

import BinaryPatch.Json.Value
import BinaryPatch.Text.Numeral

namespace BinaryPatch
namespace Json

/-- How one character is written inside a string. -/
def escape (c : Char) : List Char :=
  if c = '"' then ['\\', '"']
  else if c = '\\' then ['\\', '\\']
  else if c = '\n' then ['\\', 'n']
  else if c = '\r' then ['\\', 'r']
  else if c = '\t' then ['\\', 't']
  else if c = '\x08' then ['\\', 'b']
  else if c = '\x0c' then ['\\', 'f']
  else if c.toNat < 0x20 then
    ['\\', 'u', '0', '0', Text.lowerDigit (c.toNat / 16), Text.lowerDigit (c.toNat % 16)]
  else [c]

/-- A string between quotes. -/
def quote (text : String) : String :=
  "\"" ++ String.ofList (text.toList.flatMap escape) ++ "\""

/-- The indentation of a level. -/
def indent (level : Nat) : String := String.ofList (List.replicate (2 * level) ' ')

mutual

/-- A value whose first line is already indented. -/
def pretty (level : Nat) : Json → String
  | .null => "null"
  | .bool true => "true"
  | .bool false => "false"
  | .int value => toString value
  | .str text => quote text
  | .other literal => literal
  | .arr [] => "[]"
  | .arr (item :: rest) =>
    "[\n" ++ prettyItems (level + 1) (item :: rest) ++ "\n" ++ indent level ++ "]"
  | .obj [] => "\x7b\x7d"
  | .obj (field :: rest) =>
    "\x7b\n" ++ prettyFields (level + 1) (field :: rest) ++ "\n" ++ indent level ++ "\x7d"
  | .broken => ""

/-- The items of an array, each on its own line. -/
def prettyItems (level : Nat) : List Json → String
  | [] => ""
  | [item] => indent level ++ pretty level item
  | item :: rest => indent level ++ pretty level item ++ ",\n" ++ prettyItems level rest

/-- The fields of an object, each on its own line. -/
def prettyFields (level : Nat) : List (String × Json) → String
  | [] => ""
  | [(name, value)] => indent level ++ quote name ++ ": " ++ pretty level value
  | (name, value) :: rest =>
    indent level ++ quote name ++ ": " ++ pretty level value ++ ",\n" ++
      prettyFields level rest

end

/-- A document. -/
def render (j : Json) : String := j.pretty 0

end Json
end BinaryPatch
