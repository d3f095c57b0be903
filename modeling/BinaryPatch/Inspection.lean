/-
# Inspecting patch sites

An inspection tells, without writing, which sites of a report are patched. A slot has no
fixed payload; it counts as patched when it ends in padding.
-/

import BinaryPatch.Body
import BinaryPatch.Catalog.Basic
import BinaryPatch.Image.Basic
import BinaryPatch.Resolution.Report

namespace BinaryPatch

/-- What stands at a site. -/
inductive SiteStatus where
  | unpatched
  | patched
  /-- Neither the expected nor the patch bytes. -/
  | foreign
  | unresolved
  deriving DecidableEq

namespace SiteStatus

/-- The name of a status. -/
def name : SiteStatus → String
  | unpatched => "Original"
  | patched => "Patched"
  | foreign => "Foreign"
  | unresolved => "Unresolved"

end SiteStatus

/-- What the sites of a slice amount to. -/
inductive PatchStatus where
  | unpatched
  | patched
  | partially
  deriving DecidableEq

namespace PatchStatus

/-- The name of a status. -/
def name : PatchStatus → String
  | unpatched => "UNPATCHED"
  | patched => "PATCHED"
  | partially => "PARTIAL"

/-- The status of a whole from that of its sites. No sites are unpatched. -/
def ofSites (sites : List SiteStatus) : PatchStatus :=
  if !sites.isEmpty && sites.all (· = .patched) then patched
  else if sites.all (· = .unpatched) then unpatched
  else partially

end PatchStatus

/-- What stands at the site of one target. -/
structure TargetStatus where
  targetId : String
  offset : Option Nat
  status : SiteStatus
  observed : Option (List UInt8)
  deriving DecidableEq

/-- What stands at the sites of one report. -/
structure Inspection where
  catalogVersion : String
  platform : Platform
  overall : PatchStatus
  targets : List TargetStatus
  deriving DecidableEq

namespace Inspection

/-- The number of sites with a status. -/
def count (r : Inspection) (status : SiteStatus) : Nat :=
  r.targets.countP fun t => t.status = status

/-- What the bytes of a site are for a variant. -/
def classify (v : Variant) (p : Platform) (observed : List UInt8) : SiteStatus :=
  if (v.payload.fixed?.map fun bytes => bytes.isPrefixOf observed) = some true then .patched
  else if v.expected.isPrefixOf observed then .unpatched
  else if v.payload.isSlot && Body.isPadded observed p.arch then .patched
  else .foreign

/-- What stands at the site of a verdict. -/
def inspectTarget (i : Image) (c : Catalog) (p : Platform) : Verdict → TargetStatus
  | .unresolved target => ⟨target.targetId, none, .unresolved, none⟩
  | .located site =>
    match c.variant? site.targetId p with
    | none => ⟨site.targetId, some site.offset, .unresolved, none⟩
    | some v =>
      match i.read site.offset v.siteLength with
      | .error _ => ⟨site.targetId, some site.offset, .unresolved, none⟩
      | .ok observed =>
        ⟨site.targetId, some site.offset, classify v p observed, some observed⟩

/-- Inspect the sites of a report. -/
def ofReport (i : Image) (r : Report) (c : Catalog) : Inspection :=
  let targets := r.verdicts.map (inspectTarget i c r.platform)
  ⟨r.catalogVersion, r.platform, .ofSites (targets.map TargetStatus.status), targets⟩

end Inspection
end BinaryPatch
