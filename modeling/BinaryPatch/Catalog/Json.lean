/-
# Catalogs as documents

A catalog is kept as a JSON document. Every part is written with its fields in a fixed order,
without optional fields that have no value; rules are called `derivations`, the ends of a
rule `from` and `to`, and a payload carries its kind:

| payload | fields |
| --- | --- |
| bytes | `kind` `"bytes"`, `bytes` |
| slot | `kind` `"injected_body"`, `slot_len` |

The reader of each record collects the fields it meets in a draft, in which every field is
still optional, and makes the record of it in the end.
-/

import BinaryPatch.Catalog.Validate
import BinaryPatch.Json.Decode
import BinaryPatch.Json.Printer

namespace BinaryPatch

namespace Platform

/-- Read a platform. -/
def ofJson : Json → Json.Read Platform := Json.asName ofName?

/-- Write a platform. -/
def toJson (p : Platform) : Json := .str p.name

end Platform

namespace Hex

/-- Write a byte string. -/
def toJson (bytes : List UInt8) : Json := .str (format bytes)

end Hex

namespace Signature

/-- The fields of a signature met so far. -/
structure Draft where
  pattern : Option String := none
  anchor : Option UInt64 := none

/-- Take in one more field. -/
def Draft.add (d : Draft) : String × Json → Json.Read Draft
  | ("pattern", j) => return { d with pattern := ← Json.once Json.asString d.pattern j }
  | ("anchor", j) => return { d with anchor := ← Json.once Json.asWord d.anchor j }
  | (_, j) => Json.skip d j

/-- Read a signature. -/
def ofJson (j : Json) : Json.Read Signature := do
  let d : Draft ← (← j.fields ["pattern", "anchor"]).foldlM Draft.add {}
  return { pattern := ← Json.required d.pattern, anchor := d.anchor.getD 0 }

/-- Write a signature. -/
def toJson (s : Signature) : Json :=
  .obj [("pattern", .str s.pattern), ("anchor", .int s.anchor.toNat)]

end Signature

namespace Payload

/-- The two kinds of payload. -/
inductive Kind where
  | bytes
  | slot

namespace Kind

/-- The name of a kind. -/
def name : Kind → String
  | bytes => "bytes"
  | slot => "injected_body"

/-- The field that holds a payload of this kind. -/
def fieldName : Kind → String
  | bytes => "bytes"
  | slot => "slot_len"

/-- Read a kind. -/
def ofJson : Json → Json.Read Kind
  | .str text =>
    if text = bytes.name then .ok bytes
    else if text = slot.name then .ok slot
    else .error .shape
  | _ => .error .shape

end Kind

/-- The kind of a payload, and the fields besides. The kind may stand anywhere in an object,
and comes first in an array. -/
def split : Json → Json.Read (Kind × Json)
  | .obj fields => do
    let kind ← fields.foldlM
      (fun found (name, j) =>
        if name = "kind" then Json.once Kind.ofJson found j else Json.skip found j)
      (none : Option Kind)
    return (← Json.required kind, .obj (fields.filter fun field => field.1 != "kind"))
  | .arr (first :: rest) => do
    let kind ← Kind.ofJson first
    if (Json.arr rest).intact then .ok (kind, .arr rest) else .error .shape
  | _ => .error .shape

/-- Read the one field of a payload. -/
def readOnly {α : Type} (kind : Kind) (read : Json → Json.Read α) (j : Json) : Json.Read α := do
  let found ← (← j.fields [kind.fieldName]).foldlM
    (fun found (name, j) =>
      if name = kind.fieldName then Json.once read found j else Json.skip found j)
    (none : Option α)
  Json.required found

/-- Read a payload. -/
def ofJson (j : Json) : Json.Read Payload := do
  match ← split j with
  | (.bytes, rest) => return .bytes (← readOnly .bytes Json.asBytes rest)
  | (.slot, rest) => return .slot (← readOnly .slot Json.asWord rest)

/-- Write a payload. -/
def toJson : Payload → Json
  | .bytes written => .obj [("kind", .str Kind.bytes.name), ("bytes", Hex.toJson written)]
  | .slot length => .obj [("kind", .str Kind.slot.name), ("slot_len", .int length.toNat)]

end Payload

namespace Variant

/-- The fields of a variant met so far. -/
structure Draft where
  expected : Option (List UInt8) := none
  signature : Option (Option Signature) := none
  payload : Option Payload := none
  lastKnown : Option (Option UInt64) := none

/-- Take in one more field. -/
def Draft.add (d : Draft) : String × Json → Json.Read Draft
  | ("expected", j) => return { d with expected := ← Json.once Json.asBytes d.expected j }
  | ("signature", j) =>
    return { d with signature := ← Json.once (Json.asOption Signature.ofJson) d.signature j }
  | ("payload", j) => return { d with payload := ← Json.once Payload.ofJson d.payload j }
  | ("last_known_va", j) =>
    return { d with lastKnown := ← Json.once Json.asAddress? d.lastKnown j }
  | (_, j) => Json.skip d j

/-- Read a variant. -/
def ofJson (j : Json) : Json.Read Variant := do
  let d : Draft ←
    (← j.fields ["expected", "signature", "payload", "last_known_va"]).foldlM Draft.add {}
  return {
    expected := ← Json.required d.expected
    signature := d.signature.getD none
    payload := ← Json.required d.payload
    lastKnown := d.lastKnown.getD none }

/-- Write a variant. -/
def toJson (v : Variant) : Json :=
  .obj <|
    [("expected", Hex.toJson v.expected)] ++
    (v.signature.map fun s => ("signature", s.toJson)).toList ++
    [("payload", v.payload.toJson)] ++
    (v.lastKnown.map fun a => ("last_known_va", .str (Address.format a))).toList

end Variant

namespace PerPlatform

/-- Read a table of variants. The last of several entries for one platform counts. -/
def ofJson : Json → Json.Read (PerPlatform Variant)
  | .obj fields =>
    fields.foldlM
      (fun table (name, j) => do
        match Platform.ofName? name with
        | none => .error .shape
        | some p => return table.insert p (← Variant.ofJson j))
      {}
  | _ => .error .shape

/-- Write a table of variants. -/
def toJson (table : PerPlatform Variant) : Json :=
  .obj (table.toList.map fun (p, v) => (p.name, v.toJson))

end PerPlatform

namespace Category

/-- Read a category. -/
def ofJson : Json → Json.Read Category := Json.asName ofName?

end Category

namespace Target

/-- The fields of a target met so far. -/
structure Draft where
  id : Option String := none
  category : Option Category := none
  description : Option String := none
  variants : Option (PerPlatform Variant) := none

/-- Take in one more field. -/
def Draft.add (d : Draft) : String × Json → Json.Read Draft
  | ("id", j) => return { d with id := ← Json.once Json.asString d.id j }
  | ("category", j) => return { d with category := ← Json.once Category.ofJson d.category j }
  | ("description", j) =>
    return { d with description := ← Json.once Json.asString d.description j }
  | ("variants", j) =>
    return { d with variants := ← Json.once PerPlatform.ofJson d.variants j }
  | (_, j) => Json.skip d j

/-- Read a target. -/
def ofJson (j : Json) : Json.Read Target := do
  let d : Draft ←
    (← j.fields ["id", "category", "description", "variants"]).foldlM Draft.add {}
  return {
    id := ← Json.required d.id
    category := ← Json.required d.category
    description := d.description.getD ""
    variants := ← Json.required d.variants }

/-- Write a target. -/
def toJson (t : Target) : Json :=
  .obj [
    ("id", .str t.id),
    ("category", .str t.category.name),
    ("description", .str t.description),
    ("variants", t.variants.toJson)]

end Target

namespace Rule

/-- The fields of a rule met so far. -/
structure Draft where
  platform : Option Platform := none
  source : Option String := none
  dest : Option String := none
  delta : Option Int64 := none
  description : Option String := none

/-- Take in one more field. -/
def Draft.add (d : Draft) : String × Json → Json.Read Draft
  | ("platform", j) => return { d with platform := ← Json.once Platform.ofJson d.platform j }
  | ("from", j) => return { d with source := ← Json.once Json.asString d.source j }
  | ("to", j) => return { d with dest := ← Json.once Json.asString d.dest j }
  | ("delta", j) => return { d with delta := ← Json.once Json.asInt64 d.delta j }
  | ("description", j) =>
    return { d with description := ← Json.once Json.asString d.description j }
  | (_, j) => Json.skip d j

/-- Read a rule. -/
def ofJson (j : Json) : Json.Read Rule := do
  let d : Draft ←
    (← j.fields ["platform", "from", "to", "delta", "description"]).foldlM Draft.add {}
  return {
    platform := ← Json.required d.platform
    source := ← Json.required d.source
    dest := ← Json.required d.dest
    delta := ← Json.required d.delta
    description := d.description.getD "" }

/-- Write a rule. -/
def toJson (r : Rule) : Json :=
  .obj [
    ("platform", r.platform.toJson),
    ("from", .str r.source),
    ("to", .str r.dest),
    ("delta", .int r.delta.toInt),
    ("description", .str r.description)]

end Rule

namespace Catalog

/-- The fields of a catalog met so far. -/
structure Draft where
  version : Option String := none
  targets : Option (List Target) := none
  rules : Option (List Rule) := none

/-- Take in one more field. -/
def Draft.add (d : Draft) : String × Json → Json.Read Draft
  | ("version", j) => return { d with version := ← Json.once Json.asString d.version j }
  | ("targets", j) =>
    return { d with targets := ← Json.once (Json.asList Target.ofJson) d.targets j }
  | ("derivations", j) =>
    return { d with rules := ← Json.once (Json.asList Rule.ofJson) d.rules j }
  | (_, j) => Json.skip d j

/-- Read a catalog. -/
def ofJson (j : Json) : Json.Read Catalog := do
  let d : Draft ← (← j.fields ["version", "targets", "derivations"]).foldlM Draft.add {}
  return {
    version := ← Json.required d.version
    targets := ← Json.required d.targets
    rules := d.rules.getD [] }

/-- Write a catalog. -/
def toJson (c : Catalog) : Json :=
  .obj [
    ("version", .str c.version),
    ("targets", .arr (c.targets.map Target.toJson)),
    ("derivations", .arr (c.rules.map Rule.toJson))]

/-- The text of a saved catalog. -/
def save (c : Catalog) : String := c.toJson.render

/-- Load a catalog from its text. Only a sound one is accepted. -/
def load (text : String) : Except Fault Catalog :=
  match Json.decode ofJson text with
  | .error fault => .error (.document fault)
  | .ok c =>
    match c.validate with
    | .error fault => .error fault
    | .ok () => .ok c

end Catalog
end BinaryPatch
