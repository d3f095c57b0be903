/-
# Resolving a slice

The targets of a slice are looked for in the order of derivation, so that what a target may
be derived from is known when its turn comes. Then all of them are cross-checked, and the
report lists them in the order of the catalog.
-/

import BinaryPatch.Catalog.Order
import BinaryPatch.Image.Basic
import BinaryPatch.Resolution.CrossCheck

namespace BinaryPatch
namespace Resolution

/-- The places that rules lead to from targets already found. -/
def candidates (rules : List Rule) (fs : Findings) (id : String) : List Survey.Candidate :=
  (rules.filter fun r => r.dest == id).filterMap fun r => do
    let found ← fs.found? r.source
    let offset ← r.apply found.offset
    return ⟨offset, r.source⟩

/-- Look for the targets one after another. -/
def locateAll (s : Survey) (rules : List Rule) (fs : Findings) :
    List Target → Except Fault Findings
  | [] => .ok fs
  | t :: rest =>
    match t.variants.get? s.slice.platform with
    | none => locateAll s rules fs rest
    | some v =>
      match v.scanner? with
      | .error fault => .error fault
      | .ok scanner =>
        locateAll s rules (fs.put t.id (s.locate v scanner (candidates rules fs t.id))) rest

/-- The verdict on a target. -/
def verdict (slice : Slice) (id : String) (f : Finding) : Verdict :=
  match f.found with
  | some found =>
    .located ⟨id, found.offset, found.method, found.source, slice.toAddress found.offset⟩
  | none => .unresolved ⟨id, f.attempts⟩

/-- The verdicts on the targets that something is known of, each id once. -/
def verdicts (slice : Slice) : Findings → List Target → List Verdict
  | _, [] => []
  | fs, t :: rest =>
    match fs.get? t.id with
    | none => verdicts slice fs rest
    | some f =>
      verdict slice t.id f :: verdicts slice (fs.filter fun entry => entry.1 != t.id) rest

/-- Look for the targets of a catalog in one slice of an image. -/
def resolveSlice (image : Image) (slice : Slice) (c : Catalog) (limits : Limits) :
    Except Fault Report :=
  match c.derivationOrder slice.platform with
  | .error fault => .error (.catalog fault)
  | .ok order =>
    let rules := c.rulesFor slice.platform
    match locateAll ⟨image.buffer, slice, limits⟩ rules [] order with
    | .error fault => .error fault
    | .ok fs =>
      .ok {
        catalogVersion := c.version
        platform := slice.platform
        format := image.container.format
        verdicts := verdicts slice (fs.crossCheck rules) (c.targetsFor slice.platform) }

/-- Look for the targets in each of some slices. -/
def resolveSlices (image : Image) (c : Catalog) (limits : Limits) :
    List Slice → Except Fault (List Report)
  | [] => .ok []
  | slice :: rest =>
    match resolveSlice image slice c limits with
    | .error fault => .error fault
    | .ok report => (resolveSlices image c limits rest).map (report :: ·)

end Resolution
end BinaryPatch
