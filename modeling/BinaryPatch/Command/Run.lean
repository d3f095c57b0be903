/-
# Carrying out commands

A command is a function from a file system and a time to what it prints, whether it fails,
and the file system afterwards.

| ending | exit code |
| --- | --- |
| success | 0 |
| failure | 1; what failed and why is printed to the error output |
| refused command line | 2 |
| broken off | 101; the reason alone is printed to the error output |

A configuration that cannot be read counts as none.
-/

import BinaryPatch.Catalog.Builtin
import BinaryPatch.Command.Arguments
import BinaryPatch.Command.Console
import BinaryPatch.Command.FileSystem
import BinaryPatch.Config

namespace BinaryPatch

/-- What failed, and the causes behind it. -/
structure Failure where
  text : String
  causes : List String := []
  /-- Whether the program broke off, and did not come to report a failure. -/
  brokenOff : Bool := false
  deriving DecidableEq

namespace Failure

/-- The causes behind a fault. -/
def causesOf : Fault → List String
  | .storage fault => [fault.message]
  | _ => []

/-- A fault as a failure. -/
def ofFault (f : Fault) : Failure where
  text := f.message
  causes := causesOf f
  brokenOff := f = .capacity

/-- A fault as the cause of a failure. -/
def because (text : String) (f : Fault) : Failure where
  text := text
  causes := f.message :: causesOf f

/-- The lines of a cause: `lead` stands in front of the first, as many spaces in front of the
others. -/
def causeLines (lead cause : String) : List String :=
  match cause.splitOn "\n" with
  | [] => []
  | first :: rest =>
    (lead ++ first) :: rest.map fun line =>
      String.ofList (List.replicate lead.length ' ') ++ line

/-- The lines about a failure. Several causes are numbered. -/
def lines (f : Failure) : List String :=
  if f.brokenOff then [f.text]
  else
    s!"Error: {f.text}" ::
      match f.causes with
      | [] => []
      | [cause] => "" :: "Caused by:" :: causeLines "    " cause
      | causes =>
        "" :: "Caused by:" :: causes.zipIdx.flatMap fun (cause, i) =>
          causeLines s!"    {i}: " cause

/-- The exit code of a program that ends so. -/
def code (f : Failure) : Nat := if f.brokenOff then 101 else 1

end Failure

/-- How a command ends. -/
structure Ending where
  files : FileSystem
  out : List String := []
  err : List String := []
  failure : Option Failure := none

namespace Ending

/-- The exit code. -/
def code (e : Ending) : Nat := (e.failure.map Failure.code).getD 0

/-- All lines on the error output. -/
def errorLines (e : Ending) : List String :=
  e.err ++ ((e.failure.map Failure.lines).getD [])

/-- An ending by failure, after some output. -/
def failed (fs : FileSystem) (out : List String) (f : Failure) : Ending :=
  { files := fs, out, failure := some f }

/-- An ending by a fault whose parts are listed first. -/
def faulted (fs : FileSystem) (out : List String) (f : Fault) : Ending :=
  { files := fs, out, err := Console.fault f, failure := some (.ofFault f) }

end Ending

namespace Command

/-! ## Inputs -/

/-- The bounds set by a configuration file, or the usual ones. -/
def loadLimits (fs : FileSystem) (path : String) : Limits :=
  match fs.readText path with
  | .error _ => {}
  | .ok text =>
    match Config.parse text with
    | .error _ => {}
    | .ok limits => limits

/-- Read a catalog file. -/
def readCatalog (fs : FileSystem) (path : String) : Except Fault Catalog :=
  match fs.readText path with
  | .error fault => .error (.storage fault)
  | .ok text => Catalog.load text

/-- The catalog at a path, or the built-in one. -/
def loadCatalog (fs : FileSystem) : Option String → Except Failure Catalog
  | none => .ok Catalog.builtin
  | some path =>
    match readCatalog fs path with
    | .error fault => .error (.because s!"Failed to load catalog from {path}" fault)
    | .ok c => .ok c

/-- The engine for a catalog. -/
def loadEngine (fs : FileSystem) (limits : Limits) (path : Option String) :
    Except Failure Engine :=
  match loadCatalog fs path with
  | .error failure => .error failure
  | .ok c =>
    match Engine.ofCatalog c limits with
    | .error fault => .error (.ofFault fault)
    | .ok engine => .ok engine

/-- Load an image file. -/
def loadImage (fs : FileSystem) (path : String) : Except Fault Image :=
  match fs.read path with
  | .error fault => .error (.storage fault)
  | .ok bytes => Image.load (fs.store path bytes)

/-- Open an image file. -/
def openImage (fs : FileSystem) (path : String) : Except Failure Image :=
  match loadImage fs path with
  | .error fault => .error (.because s!"Failed to open {path}" fault)
  | .ok image => .ok image

/-- Load a body that is asked for. One without a platform is measured by the slot on the
primary one, and offered to every slice. -/
def loadBody (fs : FileSystem) (engine : Engine) (primary : Platform) (text : String) :
    Except Failure Body :=
  match BodyRequest.parse text with
  | .error fault => .error { text := fault.message }
  | .ok request =>
    let platform := request.platform.getD primary
    match engine.catalog.slotLength? platform request.id with
    | none => .error { text := s!"{request.id} is not an injection target on {platform.name}" }
    | some length =>
      match fs.read request.path with
      | .error fault =>
        .error (.because s!"Failed to read body {request.path}" (.storage fault))
      | .ok bytes => .ok ⟨request.id, bytes.data.toList, length, request.platform⟩

/-- Load every body that is asked for. -/
def loadBodies (fs : FileSystem) (engine : Engine) (primary : Platform) :
    List String → Except Failure (List Body)
  | [] => .ok []
  | text :: rest =>
    match loadBody fs engine primary text with
    | .error failure => .error failure
    | .ok body => (loadBodies fs engine primary rest).map (body :: ·)

/-- The fault of the first report that is not complete. -/
def incomplete? (reports : List Report) : Option Fault :=
  reports.findSome? fun r =>
    match r.ensureComplete with
    | .error fault => some fault
    | .ok () => none

/-! ## Commands -/

/-- Print where the targets are, and save the reports. -/
def runResolve (fs : FileSystem) (limits : Limits) (file : String)
    (catalog target : Option String) : Ending :=
  match loadEngine fs limits catalog with
  | .error failure => .failed fs [] failure
  | .ok engine =>
    match openImage fs file with
    | .error failure => .failed fs [] failure
    | .ok image =>
      match engine.resolve image with
      | .error fault => .failed fs [] (.ofFault fault)
      | .ok reports =>
        let out := reports.flatMap Console.report
        let failure := (incomplete? reports).map Failure.ofFault
        match target with
        | none => { files := fs, out, failure }
        | some path =>
          match fs.write path (Json.arr (reports.map Report.toJson)).render.toUTF8 with
          | .error fault =>
            .failed fs out { text := s!"Failed to write {path}", causes := [fault.message] }
          | .ok fs => { files := fs, out := out ++ [s!"Exported report to {path}"], failure }

/-- Print which targets are patched. -/
def runStatus (fs : FileSystem) (limits : Limits) (file : String) (catalog : Option String) :
    Ending :=
  match loadEngine fs limits catalog with
  | .error failure => .failed fs [] failure
  | .ok engine =>
    match openImage fs file with
    | .error failure => .failed fs [] failure
    | .ok image =>
      match engine.status image with
      | .error fault => .failed fs [] (.ofFault fault)
      | .ok inspections => { files := fs, out := inspections.flatMap Console.inspection }

/-- Save the restore point of a transaction, unless nothing was written. -/
def saveRestorePoint (fs : FileSystem) (out : List String) (t : Transaction) (path : String) :
    Ending :=
  match t.restorePoint? with
  | none => { files := fs, out := out ++ ["Nothing was written, no restore point saved"] }
  | some point =>
    if point.ranges.isEmpty then
      { files := fs, out := out ++ ["Nothing was written, no restore point saved"] }
    else
      match fs.write path point.save.toUTF8 with
      | .error fault => .failed fs out (.because s!"Failed to write {path}" (.storage fault))
      | .ok fs => { files := fs, out := out ++ [s!"Restore point saved to {path}"] }

/-- Patch an image by complete reports. -/
def runPatch (fs : FileSystem) (now : Timestamp) (file : String) (engine : Engine)
    (image : Image) (reports : List Report) (bodies : List Body) (out : List String)
    (restorePoint : Option String) : Ending :=
  match engine.applyReports now image reports bodies with
  | (image, .error fault) => .faulted (fs.adopt file image.store) out fault
  | (image, .ok outcome) =>
    let fs := fs.adopt file image.store
    let out := out ++ Console.transaction outcome.transaction
    match restorePoint with
    | none => { files := fs, out }
    | some path => saveRestorePoint fs out outcome.transaction path

/-- Patch a file, or only validate it. -/
def runApply (fs : FileSystem) (now : Timestamp) (limits : Limits) (file : String)
    (catalog : Option String) (requests : List String) (dryRun : Bool)
    (restorePoint : Option String) : Ending :=
  match loadEngine fs limits catalog with
  | .error failure => .failed fs [] failure
  | .ok engine =>
    match openImage fs file with
    | .error failure => .failed fs [] failure
    | .ok image =>
      match loadBodies fs engine image.primary.platform requests with
      | .error failure => .failed fs [] failure
      | .ok bodies =>
        match engine.resolve image with
        | .error fault => .failed fs [] (.ofFault fault)
        | .ok reports =>
          let out := reports.flatMap Console.report
          match incomplete? reports with
          | some fault => .faulted fs out fault
          | none =>
            if dryRun then
              match engine.prepare image reports bodies with
              | .error fault => .faulted fs out fault
              | .ok t =>
                { files := fs,
                  out := out ++ Console.transaction t ++ ["Dry run: nothing written"] }
            else runPatch fs now file engine image reports bodies out restorePoint

/-- Read a restore point file. -/
def readRestorePoint (fs : FileSystem) (path : String) : Except Fault RestorePoint :=
  match fs.readText path with
  | .error fault => .error (.storage fault)
  | .ok text => RestorePoint.load text

/-- Write captured bytes back. -/
def runRestore (fs : FileSystem) (file path : String) : Ending :=
  match readRestorePoint fs path with
  | .error fault => .failed fs [] (.because s!"Failed to read restore point {path}" fault)
  | .ok point =>
    match openImage fs file with
    | .error failure => .failed fs [] failure
    | .ok image =>
      match point.restore image with
      | (image, .error fault) => .failed (fs.adopt file image.store) [] (.ofFault fault)
      | (image, .ok ()) =>
        { files := fs.adopt file image.store
          out := [s!"Restored {point.ranges.length} range(s) captured at " ++
            s!"{point.capturedAt.formatShort} (catalog {point.catalogVersion})"] }

/-- Print a catalog, and save it. -/
def runCatalog (fs : FileSystem) (catalog output : Option String) : Ending :=
  match loadCatalog fs catalog with
  | .error failure => .failed fs [] failure
  | .ok c =>
    let out := Console.catalog c
    match output with
    | none => { files := fs, out }
    | some path =>
      match fs.write path c.save.toUTF8 with
      | .error fault => .failed fs out (.because s!"Failed to write {path}" (.storage fault))
      | .ok fs => { files := fs, out := out ++ ["", s!"Catalog exported to {path}"] }

/-- Carry out a command. -/
def run (fs : FileSystem) (now : Timestamp) (limits : Limits) : Command → Ending
  | .resolve file source target => runResolve fs limits file source target
  | .status file source => runStatus fs limits file source
  | .apply file source bodies dryRun point =>
    runApply fs now limits file source bodies dryRun point
  | .restore file point => runRestore fs file point
  | .catalog source target => runCatalog fs source target

end Command

namespace Invocation

/-- Carry out a command line. -/
def run (fs : FileSystem) (now : Timestamp) (i : Invocation) : Ending :=
  i.command.run fs now (Command.loadLimits fs i.config)

/-- The files that a command line reads. -/
def inputs (i : Invocation) : List String :=
  i.config ::
    match i.command with
    | .resolve file catalog _ | .status file catalog => file :: catalog.toList
    | .apply file catalog bodies _ _ =>
      file :: catalog.toList ++ bodies.filterMap fun text =>
        match BodyRequest.parse text with
        | .ok request => some request.path
        | .error _ => none
    | .restore file restorePoint => [file, restorePoint]
    | .catalog catalog _ => catalog.toList

end Invocation
end BinaryPatch
