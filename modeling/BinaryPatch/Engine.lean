/-
# The engine

An engine is a sound catalog and the bounds of its searches. It resolves every slice of an
image, inspects it, and patches it: `plan` goes as far as a validated transaction, `apply`
commits it.
-/

import BinaryPatch.Inspection
import BinaryPatch.Resolution.Run
import BinaryPatch.Transaction.Commit

namespace BinaryPatch

/-- A sound catalog and the bounds of its searches. -/
structure Engine where
  catalog : Catalog
  limits : Limits
  sound : catalog.validate = .ok ()

/-- The reports and the transaction of a run. -/
structure Outcome where
  /-- One report for each slice, the primary one first. -/
  reports : List Report
  transaction : Transaction
  deriving DecidableEq

namespace Outcome

/-- The report on a platform. -/
def report? (o : Outcome) (p : Platform) : Option Report :=
  o.reports.find? fun r => r.platform = p

/-- The offset of a target in the first slice that has one. -/
def offset? (o : Outcome) (id : String) : Option Nat := o.reports.findSome? fun r => r.offset? id

end Outcome

namespace Engine

/-- An engine for a catalog that is sound. -/
def ofCatalog (c : Catalog) (limits : Limits) : Except Fault Engine :=
  match h : c.validate with
  | .error fault => .error fault
  | .ok () => .ok ⟨c, limits, h⟩

/-- Resolve every slice of an image. -/
def resolve (e : Engine) (i : Image) : Except Fault (List Report) :=
  Resolution.resolveSlices i e.catalog e.limits i.slices

/-- Inspect every slice of an image. -/
def status (e : Engine) (i : Image) : Except Fault (List Inspection) :=
  (e.resolve i).map fun reports => reports.map fun r => Inspection.ofReport i r e.catalog

/-- Build a transaction from reports and validate it. -/
def prepare (e : Engine) (i : Image) (reports : List Report) (bodies : List Body) :
    Except Fault Transaction :=
  match Transaction.build reports e.catalog bodies with
  | .error fault => .error fault
  | .ok t =>
    match t.validate i with
    | (_, .error fault) => .error fault
    | (t, .ok ()) => .ok t

/-- Resolve an image and validate a transaction, without writing. -/
def plan (e : Engine) (i : Image) (bodies : List Body) : Except Fault Outcome :=
  match e.resolve i with
  | .error fault => .error fault
  | .ok reports => (e.prepare i reports bodies).map fun t => ⟨reports, t⟩

/-- Patch an image by reports that are already there. -/
def applyReports (e : Engine) (now : Timestamp) (i : Image) (reports : List Report)
    (bodies : List Body) : Image × Except Fault Outcome :=
  match e.prepare i reports bodies with
  | .error fault => (i, .error fault)
  | .ok t =>
    match t.commit now i with
    | (_, i, .error fault) => (i, .error fault)
    | (t, i, .ok ()) => (i, .ok ⟨reports, t⟩)

/-- Resolve an image and patch it. -/
def apply (e : Engine) (now : Timestamp) (i : Image) (bodies : List Body) :
    Image × Except Fault Outcome :=
  match e.resolve i with
  | .error fault => (i, .error fault)
  | .ok reports => e.applyReports now i reports bodies

end Engine
end BinaryPatch
