/-
# Sound catalogs

A catalog is sound when its version says something, its targets have distinct ids and at
least one variant each, its variants can be told apart from what is written over them, its
rules lead from one existing variant to another, and no rules run in a circle. `fault?`
finds the first thing wrong, in this order:

| part | checked |
| --- | --- |
| version | not blank |
| each target | id not seen before, some variant, then its variants by platform |
| each variant | expected bytes, payload, signature, anchor |
| each rule | source, destination, both different |
| each platform with a rule | its order of derivation exists |
-/

import BinaryPatch.Catalog.Order
import BinaryPatch.Text.Blank

namespace BinaryPatch

namespace Payload

/-- What is wrong with a payload, next to the bytes that are expected at its site. -/
def fault? (id : String) (p : Platform) (expected : List UInt8) : Payload → Option CatalogFault
  | .bytes written =>
    if written.isEmpty then some (.emptyPatch id p)
    else if written = expected then some (.patchEqualsExpected id p)
    else none
  | .slot length =>
    if length.toNat < expected.length then
      some (.shortSlot id p length.toNat expected.length)
    else none

end Payload

namespace Signature

/-- What is wrong with a signature. -/
def fault? (id : String) (p : Platform) (s : Signature) : Option Fault :=
  match Pattern.parse s.pattern with
  | .error fault => some (.signature fault)
  | .ok pattern =>
    if pattern.length < s.anchor.toNat then
      some (.catalog (.anchorPastEnd id p s.anchor.toNat pattern.length))
    else none

end Signature

namespace Variant

/-- What is wrong with a variant. -/
def fault? (id : String) (p : Platform) (v : Variant) : Option Fault :=
  if v.expected.isEmpty then some (.catalog (.emptyExpected id p))
  else
    ((v.payload.fault? id p v.expected).map .catalog).or
      (v.signature.bind (Signature.fault? id p))

end Variant

namespace Target

/-- What is wrong with a target, apart from its id. -/
def fault? (t : Target) : Option Fault :=
  if t.variants.toList.isEmpty then some (.catalog (.noVariants t.id))
  else t.variants.toList.findSome? fun (p, v) => v.fault? t.id p

end Target

namespace Catalog

/-- What is wrong with targets that follow others of the given ids. -/
def targetFault? (seen : List String) : List Target → Option Fault
  | [] => none
  | t :: rest =>
    if seen.contains t.id then some (.catalog (.duplicateTarget t.id))
    else t.fault?.or (targetFault? (t.id :: seen) rest)

/-- What is wrong with a rule. -/
def ruleFault? (c : Catalog) (r : Rule) : Option CatalogFault :=
  if !c.hasVariant r.source r.platform then
    some (.ruleReference r.source r.dest r.source r.platform)
  else if !c.hasVariant r.dest r.platform then
    some (.ruleReference r.source r.dest r.dest r.platform)
  else if r.source = r.dest then some (.selfRule r.source)
  else none

/-- The circle of rules on a platform, if it has rules that run in one. -/
def cycleFault? (c : Catalog) (p : Platform) : Option CatalogFault :=
  if c.rules.any fun r => r.platform = p then
    match c.derivationOrder p with
    | .error fault => some fault
    | .ok _ => none
  else none

/-- The first thing wrong with a catalog. -/
def fault? (c : Catalog) : Option Fault :=
  if (Text.trim c.version.toList).isEmpty then some (.catalog .emptyVersion)
  else
    (targetFault? [] c.targets).or <|
      ((c.rules.findSome? c.ruleFault?).or (Platform.all.findSome? c.cycleFault?)).map .catalog

/-- Accept a sound catalog. -/
def validate (c : Catalog) : Except Fault Unit :=
  match c.fault? with
  | some fault => .error fault
  | none => .ok ()

end Catalog
end BinaryPatch
