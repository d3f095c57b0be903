/-
# Catalogs

A catalog is plain data: the targets to patch and the rules between them. A target has a
variant for each platform it exists on, and a variant says what stands at the site, what is
written there, and how the site is found again: by a signature, or near the address it had
when the entry was last checked. A rule says how far one target lies behind another.
-/

import BinaryPatch.Image.Slice
import BinaryPatch.Pattern.Text

namespace BinaryPatch

/-- A pattern around a site, which starts `anchor` bytes behind the match. -/
structure Signature where
  pattern : String
  anchor : UInt64 := 0
  deriving DecidableEq

/-- What is written at a site. -/
inductive Payload where
  /-- These bytes. -/
  | bytes (bytes : List UInt8)
  /-- A function body compiled elsewhere, filled up to this length. -/
  | slot (length : UInt64)
  deriving DecidableEq

namespace Payload

/-- The number of bytes written. -/
def length : Payload → Nat
  | .bytes written => written.length
  | .slot length => length.toNat

/-- The bytes written, where the catalog fixes them. -/
def fixed? : Payload → Option (List UInt8)
  | .bytes written => some written
  | .slot _ => none

/-- Whether a function body is written. -/
def isSlot : Payload → Bool
  | .bytes _ => false
  | .slot _ => true

end Payload

/-- A target as it is on one platform. -/
structure Variant where
  /-- The bytes that must stand at the site before it is patched. -/
  expected : List UInt8
  signature : Option Signature := none
  payload : Payload
  /-- The address of the site when the entry was last checked. -/
  lastKnown : Option UInt64 := none
  deriving DecidableEq

namespace Variant

/-- The number of bytes that are compared or written at the site. -/
def siteLength (v : Variant) : Nat := max v.expected.length v.payload.length

/-- Whether the site at `offset` is unpatched. -/
def holdsExpected (v : Variant) (b : ByteArray) (offset : Nat) : Bool :=
  Bytes.holdsAt b offset v.expected

/-- Whether the site at `offset` holds the fixed payload. -/
def holdsPatch (v : Variant) (b : ByteArray) (offset : Nat) : Bool :=
  match v.payload.fixed? with
  | some bytes => Bytes.holdsAt b offset bytes
  | none => false

/-- The payload as cells: literals where the bytes are known. There are none where the payload has
more cells than a list can hold. -/
def written? (v : Variant) : Option (List Cell) :=
  if v.payload.length ≤ Cell.limit then
    match v.payload with
    | .bytes bytes => some (bytes.map some)
    | .slot length => some (List.replicate length.toNat none)
  else none

end Variant

/-- What a target is about. -/
inductive Category where
  | stereo
  | bitrate
  | filter
  | encoder
  | injection
  deriving DecidableEq

namespace Category

/-- Every category. -/
def all : List Category := [stereo, bitrate, filter, encoder, injection]

/-- The name of a category. -/
def name : Category → String
  | stereo => "Stereo"
  | bitrate => "Bitrate"
  | filter => "Filter"
  | encoder => "Encoder"
  | injection => "Injection"

/-- The category of a name. -/
def ofName? (text : String) : Option Category := all.find? fun c => c.name == text

end Category

/-- A place to patch. -/
structure Target where
  id : String
  category : Category
  description : String := ""
  variants : PerPlatform Variant
  deriving DecidableEq

/-- On one platform, `dest` is expected `delta` bytes behind `source`. -/
structure Rule where
  platform : Platform
  source : String
  dest : String
  delta : Int64
  description : String := ""
  deriving DecidableEq

namespace Rule

/-- Where the rule puts its destination, if that is a 64-bit offset. -/
def apply (r : Rule) (offset : Nat) : Option Nat :=
  let place := (offset : Int) + r.delta.toInt
  if 0 ≤ place ∧ place < wordLimit then some place.toNat else none

end Rule

/-- Targets and the rules between them. -/
structure Catalog where
  version : String
  targets : List Target
  rules : List Rule := []
  deriving DecidableEq

namespace Catalog

/-- The target of an id, the first if there are several. -/
def target? (c : Catalog) (id : String) : Option Target := c.targets.find? fun t => t.id == id

/-- The variant of a target on a platform. -/
def variant? (c : Catalog) (id : String) (p : Platform) : Option Variant :=
  (c.target? id).bind fun t => t.variants.get? p

/-- Whether a target exists on a platform. -/
def hasVariant (c : Catalog) (id : String) (p : Platform) : Bool := (c.variant? id p).isSome

/-- The targets that exist on a platform, in the order of the catalog. -/
def targetsFor (c : Catalog) (p : Platform) : List Target :=
  c.targets.filter fun t => t.variants.has p

/-- The rules of a platform whose two ends exist on it, in the order of the catalog. -/
def rulesFor (c : Catalog) (p : Platform) : List Rule :=
  c.rules.filter fun r =>
    r.platform = p && c.hasVariant r.source p && c.hasVariant r.dest p

/-- The length of the slot that a target has on a platform, if it takes a function body. -/
def slotLength? (c : Catalog) (p : Platform) (id : String) : Option Nat := do
  let v ← c.variant? id p
  match v.payload with
  | .slot length => some length.toNat
  | .bytes _ => none

end Catalog
end BinaryPatch
