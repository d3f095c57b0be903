/-
# TOML values

A TOML document as a tree. A table remembers how it came about, because that decides what
may be added to it later:

| origin | came about by | may be opened by a header | may be added to by dotted keys |
| --- | --- | --- | --- |
| `header` | its own header | no | no |
| `implied` | the header of a table inside it | once | no |
| `dotted` | a dotted key | no | yes |
| `inline` | a value in braces | no | no |

Scalars other than integers are not told apart.
-/

namespace BinaryPatch
namespace Toml

/-- How a table came about. -/
inductive Origin where
  | header
  | implied
  | dotted
  | inline
  deriving DecidableEq

/-- A TOML value. -/
inductive Value where
  | int (value : Int)
  | scalar
  | array (items : List Value)
  | table (origin : Origin) (fields : List (String × Value))
  /-- Tables under one name, each opened by a header in double brackets. -/
  | tables (elements : List (List (String × Value)))

/-- The fields of a table. -/
abbrev Fields := List (String × Value)

namespace Fields

/-- The value of a field. -/
def get? (fields : Fields) (name : String) : Option Value := List.lookup name fields

/-- Replace the value of a field, or add the field. -/
def put (fields : Fields) (name : String) (v : Value) : Fields :=
  if (fields.get? name).isSome then
    fields.map fun field => if field.1 = name then (name, v) else field
  else fields ++ [(name, v)]

/-- Add a field that is not there yet. -/
def add? (fields : Fields) (name : String) (v : Value) : Option Fields :=
  if (fields.get? name).isSome then none else some (fields.put name v)

/-- Change the table that a path of names leads to, given how it came about. Tables on the
way that are missing come about with the origin `fresh`; under a name for several tables the
last one is meant. -/
def alter (fresh : Origin) (change : Origin → Fields → Option Fields) (origin : Origin) :
    (path : List String) → Fields → Option Fields
  | [], fields => change origin fields
  | name :: path, fields => do
    match fields.get? name with
    | none => return fields.put name (.table fresh (← alter fresh change fresh path []))
    | some (.table inner inside) =>
      if inner = .inline ∨ (fresh = .dotted ∧ inner = .header) then none
      else return fields.put name (.table inner (← alter fresh change inner path inside))
    | some (.tables elements) =>
      let inside ← elements.getLast?
      return fields.put name
        (.tables (elements.dropLast ++ [← alter fresh change .header path inside]))
    | some _ => none

/-- Change the table of a header that has been opened. -/
def within (change : Fields → Option Fields) : (path : List String) → Fields → Option Fields :=
  alter .implied (fun _ => change) .header

/-- Set a value. The names of a dotted key but the last lead through tables of dotted keys. -/
def assign (path : List String) (name : String) (v : Value) (fields : Fields) : Option Fields :=
  alter .dotted
    (fun origin inside => if path ≠ [] ∧ origin ≠ .dotted then none else inside.add? name v)
    .header path fields

/-- Open a table by its header. -/
def openTable (path : List String) (name : String) : Fields → Option Fields :=
  within
    (fun fields =>
      match fields.get? name with
      | none => fields.add? name (.table .header [])
      | some (.table .implied inside) => some (fields.put name (.table .header inside))
      | some _ => none)
    path

/-- Open one more of the tables under a name by a header in double brackets. -/
def openElement (path : List String) (name : String) : Fields → Option Fields :=
  within
    (fun fields =>
      match fields.get? name with
      | none => fields.add? name (.tables [[]])
      | some (.tables elements) => some (fields.put name (.tables (elements ++ [[]])))
      | some _ => none)
    path

end Fields
end Toml
end BinaryPatch
