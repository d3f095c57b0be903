/-
# Resolution reports

A report says, for every target of one slice, where it is or why it was not found. Targets
stand in the order of the catalog.
-/

import BinaryPatch.Fault
import BinaryPatch.Json.Value

namespace BinaryPatch

/-- How an offset was found. -/
inductive Method where
  | directSignature
  | derived
  | fuzzySearch
  deriving DecidableEq

namespace Method

/-- The name of a method. -/
def name : Method → String
  | directSignature => "DirectSignature"
  | derived => "Derived"
  | fuzzySearch => "FuzzySearch"

end Method

/-- A target with its offset. -/
structure Located where
  targetId : String
  offset : Nat
  method : Method
  /-- The target that a derived offset was derived from. -/
  source : Option String
  /-- The address of the offset. -/
  address : Option Nat
  deriving DecidableEq

/-- What became of one target. -/
inductive Verdict where
  | located (site : Located)
  | unresolved (target : Unresolved)
  deriving DecidableEq

namespace Verdict

/-- The id of the target. -/
def targetId : Verdict → String
  | located site => site.targetId
  | unresolved target => target.targetId

/-- The site, if there is one. -/
def located? : Verdict → Option Located
  | located site => some site
  | unresolved _ => none

/-- The failure, if there is one. -/
def unresolved? : Verdict → Option Unresolved
  | located _ => none
  | unresolved target => some target

end Verdict

/-- What became of the targets of one slice. -/
structure Report where
  catalogVersion : String
  platform : Platform
  format : ContainerFormat
  verdicts : List Verdict
  deriving DecidableEq

namespace Report

/-- The targets with an offset. -/
def located (r : Report) : List Located := r.verdicts.filterMap Verdict.located?

/-- The targets without one. -/
def unresolved (r : Report) : List Unresolved := r.verdicts.filterMap Verdict.unresolved?

/-- Whether every target has an offset. -/
def complete (r : Report) : Bool := r.unresolved.isEmpty

/-- The verdict on a target. -/
def get? (r : Report) (id : String) : Option Verdict :=
  r.verdicts.find? fun v => v.targetId == id

/-- The offset of a target. -/
def offset? (r : Report) (id : String) : Option Nat :=
  ((r.get? id).bind Verdict.located?).map Located.offset

/-- Accept a complete report; the fault names every target without an offset. -/
def ensureComplete (r : Report) : Except Fault Unit :=
  if r.complete then .ok () else .error (.unresolved r.unresolved)

end Report

namespace Obstacle

/-- A list of numbers. -/
def numbers (ns : List Nat) : Json := .arr (ns.map fun (n : Nat) => .int n)

/-- The name of an obstacle in saved reports. -/
def tag : Obstacle → String
  | noSignature => "no_signature"
  | noMatch => "no_match"
  | ambiguous _ => "ambiguous"
  | outOfRange _ _ _ => "out_of_range"
  | noDerivation => "no_derivation"
  | inconsistent _ => "inconsistent"
  | conflicting _ => "conflicting_derivations"
  | noWindow => "no_window"
  | skippedAfterAmbiguity => "skipped_after_ambiguity"
  | deltaViolation _ _ _ _ => "delta_violation"
  | sourceUnresolved _ => "source_unresolved"

/-- The details of an obstacle as fields. -/
def details : Obstacle → List (String × Json)
  | ambiguous offsets => [("offsets", numbers offsets)]
  | outOfRange offset length size =>
    [("offset", .int offset), ("length", .int length), ("size", .int size)]
  | inconsistent candidates | conflicting candidates => [("candidates", numbers candidates)]
  | deltaViolation source dest expected actual =>
    [("from", .str source), ("to", .str dest), ("expected", .int expected),
      ("actual", .int actual)]
  | sourceUnresolved source => [("source", .str source)]
  | _ => []

end Obstacle

namespace Attempt

/-- Write an attempt. -/
def toJson (a : Attempt) : Json :=
  .obj (("phase", .str a.phase.tag) :: ("reason", .str a.obstacle.tag) :: a.obstacle.details)

end Attempt

namespace Verdict

/-- Write a verdict. The source and the address are left out where there is none. -/
def toJson : Verdict → Json
  | located site =>
    .obj <|
      [("status", .str "resolved"), ("target_id", .str site.targetId),
        ("offset", .int site.offset), ("method", .str site.method.name)] ++
      (site.source.map fun source => ("source", .str source)).toList ++
      (site.address.map fun address => ("va", .int address)).toList
  | unresolved target =>
    .obj [("status", .str "unresolved"), ("target_id", .str target.targetId),
      ("attempts", .arr (target.attempts.map Attempt.toJson))]

end Verdict

namespace Report

/-- Write a report. -/
def toJson (r : Report) : Json :=
  .obj [("catalog_version", .str r.catalogVersion), ("platform", .str r.platform.name),
    ("format", .str r.format.tag), ("targets", .arr (r.verdicts.map Verdict.toJson))]

end Report
end BinaryPatch
