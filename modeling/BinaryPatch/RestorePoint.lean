/-
# Restore points

Before a commit overwrites a range it captures the bytes that stand there. A restore point is
what is needed to write them back later: the captured ranges, the size and the platforms of
the file they come from, and when they were captured.
-/

import BinaryPatch.Catalog.Json
import BinaryPatch.Image.Basic
import BinaryPatch.Timestamp

namespace BinaryPatch

/-- Bytes at an offset. -/
structure Patch where
  offset : Nat
  bytes : List UInt8
  deriving DecidableEq

namespace Image

/-- Stage patches one after another, up to the first that does not fit. -/
def writeEach (i : Image) : List Patch → Image × Except SiteFault Unit
  | [] => (i, .ok ())
  | p :: rest =>
    match i.write p.offset p.bytes with
    | .error fault => (i, .error fault)
    | .ok i => writeEach i rest

/-- The fault of the first patch that does not fit. -/
def misfit? (i : Image) (patches : List Patch) : Option SiteFault :=
  patches.findSome? fun p =>
    if i.inside p.offset p.bytes.length then none
    else some (.outOfRange p.offset p.bytes.length i.size)

/-- Stage all patches, or none of them if one does not fit. -/
def writeAll (i : Image) (patches : List Patch) : Image × Except SiteFault Unit :=
  match i.misfit? patches with
  | some fault => (i, .error fault)
  | none => i.writeEach patches

/-- Stage all patches and persist the image. -/
def writeAndFlush (i : Image) (patches : List Patch) : Image × Except Fault Unit :=
  match i.writeAll patches with
  | (i, .error fault) => (i, .error (.site fault))
  | (i, .ok ()) =>
    match i.flush with
    | .error fault => (i, .error (.storage fault))
    | .ok i => (i, .ok ())

end Image

/-- What is needed to undo a commit later. -/
structure RestorePoint where
  catalogVersion : String
  platforms : List Platform
  fileLength : Nat
  capturedAt : Timestamp
  ranges : List Patch
  deriving DecidableEq

namespace RestorePoint

/-- Why the point does not fit an image. -/
def misfit? (p : RestorePoint) (i : Image) : Option RestoreFault :=
  if i.size ≠ p.fileLength then some (.otherSize i.size p.fileLength)
  else (p.platforms.find? fun platform => !i.hasSlice platform).map .missingSlice

/-- Write the captured ranges back and persist the image. -/
def restore (p : RestorePoint) (i : Image) : Image × Except Fault Unit :=
  match p.misfit? i with
  | some fault => (i, .error (.restore fault))
  | none => i.writeAndFlush p.ranges

end RestorePoint

/-! ## Documents -/

namespace Timestamp

/-- Read a point in time. -/
def ofJson (j : Json) : Json.Read Timestamp := do
  match parse? (← j.asString) with
  | some t => .ok t
  | none => .error .shape

end Timestamp

namespace Patch

/-- The fields of a captured range met so far. -/
structure Draft where
  offset : Option UInt64 := none
  bytes : Option (List UInt8) := none

/-- Take in one more field. -/
def Draft.add (d : Draft) : String × Json → Json.Read Draft
  | ("offset", j) => return { d with offset := ← Json.once Json.asWord d.offset j }
  | ("bytes", j) => return { d with bytes := ← Json.once Json.asBytes d.bytes j }
  | (_, j) => Json.skip d j

/-- Read a captured range. -/
def ofJson (j : Json) : Json.Read Patch := do
  let d : Draft ← (← j.fields ["offset", "bytes"]).foldlM Draft.add {}
  return { offset := (← Json.required d.offset).toNat, bytes := ← Json.required d.bytes }

/-- Write a captured range. -/
def toJson (p : Patch) : Json :=
  .obj [("offset", .int p.offset), ("bytes", Hex.toJson p.bytes)]

end Patch

namespace RestorePoint

/-- The fields of a restore point met so far. -/
structure Draft where
  catalogVersion : Option String := none
  platforms : Option (List Platform) := none
  fileLength : Option UInt64 := none
  capturedAt : Option Timestamp := none
  ranges : Option (List Patch) := none

/-- Take in one more field. -/
def Draft.add (d : Draft) : String × Json → Json.Read Draft
  | ("catalog_version", j) =>
    return { d with catalogVersion := ← Json.once Json.asString d.catalogVersion j }
  | ("platforms", j) =>
    return { d with platforms := ← Json.once (Json.asList Platform.ofJson) d.platforms j }
  | ("file_len", j) => return { d with fileLength := ← Json.once Json.asWord d.fileLength j }
  | ("captured_at", j) =>
    return { d with capturedAt := ← Json.once Timestamp.ofJson d.capturedAt j }
  | ("ranges", j) =>
    return { d with ranges := ← Json.once (Json.asList Patch.ofJson) d.ranges j }
  | (_, j) => Json.skip d j

/-- Read a restore point. -/
def ofJson (j : Json) : Json.Read RestorePoint := do
  let d : Draft ←
    (← j.fields ["catalog_version", "platforms", "file_len", "captured_at", "ranges"]).foldlM
      Draft.add {}
  return {
    catalogVersion := ← Json.required d.catalogVersion
    platforms := ← Json.required d.platforms
    fileLength := (← Json.required d.fileLength).toNat
    capturedAt := ← Json.required d.capturedAt
    ranges := ← Json.required d.ranges }

/-- Write a restore point. -/
def toJson (p : RestorePoint) : Json :=
  .obj [
    ("catalog_version", .str p.catalogVersion),
    ("platforms", .arr (p.platforms.map Platform.toJson)),
    ("file_len", .int p.fileLength),
    ("captured_at", .str p.capturedAt.format),
    ("ranges", .arr (p.ranges.map Patch.toJson))]

/-- The text of a saved restore point. -/
def save (p : RestorePoint) : String := p.toJson.render

/-- Load a restore point from its text. -/
def load (text : String) : Except Fault RestorePoint :=
  match Json.decode ofJson text with
  | .error fault => .error (.document fault)
  | .ok p => .ok p

end RestorePoint
end BinaryPatch
