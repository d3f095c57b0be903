/-
# From JSON to the values of a domain

Readers for the leaves and the ways to put them together. A record is read from an object,
whose unknown fields are passed over and whose known ones must not repeat, or from an array
that lists its fields in their order. Fields are read in the order of the text, so that the
first fault in it is the one that is found.
-/

import BinaryPatch.Fault
import BinaryPatch.Json.Reader

namespace BinaryPatch
namespace Json

/-- The outcome of reading a value. -/
abbrev Read (α : Type) := Except DocumentFault α

/-- Read a string. -/
def asString : Json → Read String
  | .str text => .ok text
  | _ => .error .shape

/-- Read an unsigned 64-bit word. -/
def asWord : Json → Read UInt64
  | .int value =>
    if 0 ≤ value ∧ value < wordLimit then .ok (UInt64.ofNat value.toNat) else .error .shape
  | _ => .error .shape

/-- Read a signed 64-bit integer. -/
def asInt64 : Json → Read Int64
  | .int value =>
    if Int64.minValue.toInt ≤ value ∧ value ≤ Int64.maxValue.toInt then
      .ok (Int64.ofInt value)
    else .error .shape
  | _ => .error .shape

/-- Read a byte string. -/
def asBytes (j : Json) : Read (List UInt8) := do
  match Hex.parse (← j.asString) with
  | .ok bytes => .ok bytes
  | .error fault => .error (.hex fault)

/-- Read a value that may be `null`. -/
def asOption {α : Type} (read : Json → Read α) : Json → Read (Option α)
  | .null => .ok none
  | j => (read j).map some

/-- Read an address that may be `null`. -/
def asAddress? : Json → Read (Option UInt64) :=
  asOption fun j => do
    let text ← j.asString
    match Address.parse text with
    | .ok address => .ok address
    | .error cause => .error (.address text cause)

/-- Read every item of a list. -/
def readAll {α : Type} (read : Json → Read α) : List Json → Read (List α)
  | [] => .ok []
  | j :: rest => do
    let a ← read j
    let as ← readAll read rest
    .ok (a :: as)

/-- Read an array. -/
def asList {α : Type} (read : Json → Read α) : Json → Read (List α)
  | .arr items => readAll read items
  | _ => .error .shape

/-- Read one of a few names, which an object with `null` under the name stands for too. -/
def asName {α : Type} (named? : String → Option α) : Json → Read α
  | .str name | .obj [(name, .null)] =>
    match named? name with
    | some a => .ok a
    | none => .error .shape
  | _ => .error .shape

/-- The fields of a record. In an array they stand in the given order, and an item too many
makes the record broken. -/
def fields (names : List String) : Json → Read (List (String × Json))
  | .obj fields => .ok fields
  | .arr items =>
    .ok (names.zip items ++ if names.length < items.length then [("", .broken)] else [])
  | _ => .error .shape

/-- Read a field that must not have been read before. -/
def once {α : Type} (read : Json → Read α) (earlier : Option α) (j : Json) :
    Read (Option α) :=
  match earlier with
  | some _ => .error .shape
  | none => (read j).map some

/-- The value of a field that must be there. -/
def required {α : Type} : Option α → Read α
  | some a => .ok a
  | none => .error .shape

/-- Pass over a field that is not known. -/
def skip {α : Type} (draft : α) (j : Json) : Read α :=
  if j.intact then .ok draft else .error .shape

/-- Read a text as a document. Nothing but white space may follow the value. -/
def decode {α : Type} (read : Json → Read α) (text : String) : Read α := do
  let document := Json.parse text
  let a ← read document.root
  if document.complete then .ok a else .error .shape

end Json
end BinaryPatch
