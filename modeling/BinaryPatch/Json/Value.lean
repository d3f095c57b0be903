/-
# JSON values

A JSON document as a tree. Objects keep their fields in the order of the text, repeated
names included, because a reader meets them in that order and decides what to make of a
repetition. Two leaves are not JSON values of their own:

| leaf | stands for |
| --- | --- |
| `other` | a scalar that no document here has a use for: a number with a fraction or an exponent, or a string with half of a surrogate pair |
| `broken` | the place where the text stops being JSON |

Readers refuse `other` where they want a value, and may ignore it. They refuse `broken`
everywhere, but only after all that stands before it, so the first fault of a document is
the first in its text.
-/

namespace BinaryPatch

/-- A JSON value. -/
inductive Json where
  | null
  | bool (value : Bool)
  | int (value : Int)
  | str (text : String)
  | other (literal : String)
  | arr (items : List Json)
  | obj (fields : List (String × Json))
  | broken
  deriving Inhabited

namespace Json

mutual

/-- Whether no part of a value is broken. -/
def intact : Json → Bool
  | .arr items => intactItems items
  | .obj fields => intactFields fields
  | .broken => false
  | _ => true

/-- Whether every item is intact. -/
def intactItems : List Json → Bool
  | [] => true
  | item :: rest => item.intact && intactItems rest

/-- Whether every field is intact. -/
def intactFields : List (String × Json) → Bool
  | [] => true
  | (_, value) :: rest => value.intact && intactFields rest

end

end Json
end BinaryPatch
