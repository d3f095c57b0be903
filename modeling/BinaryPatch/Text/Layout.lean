/-
# Laying out text

Columns are filled up to a width counted in characters; a text that is already as wide
stays as it is. Lists are written with a comma and a space between two items.
-/

namespace BinaryPatch
namespace Text

/-- A text filled up with a character in front of it. -/
def padLeft (width : Nat) (fill : Char) (s : String) : String :=
  String.ofList (List.replicate (width - s.length) fill) ++ s

/-- A text filled up with spaces after it. -/
def padRight (width : Nat) (s : String) : String :=
  s ++ String.ofList (List.replicate (width - s.length) ' ')

/-- Items with a comma and a space between two of them. -/
def commaList (items : List String) : String := ", ".intercalate items

end Text
end BinaryPatch
