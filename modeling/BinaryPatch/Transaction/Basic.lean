/-
# Transactions

A transaction holds one entry for every target of some reports: where it is, what must stand
there and what is written. It is built only from complete reports, with a body for every
slot, and when no two of its sites share a byte.

| step | from | to |
| --- | --- | --- |
| validate | pending, validated | validated |
| commit | validated | applied |
| roll back | applied | rolled back |

A step that fails after it has begun leaves the transaction failed. A step that may not be
taken leaves it as it is.
-/

import BinaryPatch.Body
import BinaryPatch.Resolution.Report
import BinaryPatch.RestorePoint

namespace BinaryPatch

/-- What validation has found at a site. -/
inductive SiteState where
  | unpatched
  | alreadyApplied
  deriving DecidableEq

namespace SiteState

/-- The name of a state. -/
def name : SiteState → String
  | unpatched => "Original"
  | alreadyApplied => "AlreadyApplied"

end SiteState

/-- One site of a transaction. -/
structure Entry where
  targetId : String
  platform : Platform
  offset : Nat
  expected : List UInt8
  newBytes : List UInt8
  /-- The bytes that validation has read. -/
  observed : Option (List UInt8) := none
  state : Option SiteState := none
  deriving DecidableEq

namespace Entry

/-- The number of bytes that are compared or written. -/
def length (e : Entry) : Nat := max e.expected.length e.newBytes.length

/-- The bytes that are compared or written. -/
def span (e : Entry) : Span := ⟨e.offset, e.offset + e.length⟩

/-- Whether a commit writes the entry. -/
def needsWrite (e : Entry) : Bool := e.state = some .unpatched

/-- What a commit writes. -/
def patch (e : Entry) : Patch := ⟨e.offset, e.newBytes⟩

end Entry

/-- Sites that are patched together. -/
structure Transaction where
  catalogVersion : String
  platforms : List Platform
  entries : List Entry
  progress : Progress := .pending
  /-- The bytes that stood where the last commit has written. -/
  captured : List Patch := []
  /-- The size of the image that was validated. -/
  fileLength : Nat := 0
  committedAt : Option Timestamp := none
  deriving DecidableEq

namespace Transaction

/-! ## Building -/

/-- What is written for a target. -/
def newBytes (id : String) (p : Platform) (bodies : List Body) :
    Payload → Except Fault (List UInt8)
  | .bytes bytes => .ok bytes
  | .slot length =>
    match bodies.find? fun b => b.fits id p with
    | none => .error (.bodyMissing id)
    | some body => body.spliceInto length.toNat p.arch

/-- The entry of a located target. -/
def entry (p : Platform) (c : Catalog) (bodies : List Body) (site : Located) :
    Except Fault Entry :=
  match c.target? site.targetId with
  | none => .error (.catalog (.unknownTarget site.targetId))
  | some t =>
    match t.variants.get? p with
    | none => .error (.catalog (.unknownVariant t.id p))
    | some v =>
      match newBytes t.id p bodies v.payload with
      | .error fault => .error fault
      | .ok bytes => .ok ⟨t.id, p, site.offset, v.expected, bytes, none, none⟩

/-- The entries of located targets. -/
def entriesFor (p : Platform) (c : Catalog) (bodies : List Body) :
    List Located → Except Fault (List Entry)
  | [] => .ok []
  | site :: rest =>
    match entry p c bodies site with
    | .error fault => .error fault
    | .ok e => (entriesFor p c bodies rest).map (e :: ·)

/-- The entries of every report. -/
def entriesOf (c : Catalog) (bodies : List Body) : List Report → Except Fault (List Entry)
  | [] => .ok []
  | r :: rest =>
    match entriesFor r.platform c bodies r.located with
    | .error fault => .error fault
    | .ok es => (entriesOf c bodies rest).map (es ++ ·)

/-- Two neighbours of a list sorted by offset whose spans overlap. -/
def overlapping? : List Entry → Option (Entry × Entry)
  | first :: second :: rest =>
    if second.span.start < first.span.stop then some (first, second)
    else overlapping? (second :: rest)
  | _ => none

/-- Build a transaction from the reports on some slices of one image. -/
def build (reports : List Report) (c : Catalog) (bodies : List Body) :
    Except Fault Transaction :=
  match reports.flatMap Report.unresolved with
  | [] =>
    match entriesOf c bodies reports with
    | .error fault => .error fault
    | .ok entries =>
      match overlapping? (entries.mergeSort fun a b => a.offset ≤ b.offset) with
      | some (first, second) => .error (.overlap first.targetId second.targetId)
      | none =>
        .ok { catalogVersion := c.version, platforms := reports.map Report.platform, entries }
  | targets => .error (.unresolved targets)

/-- Whether every site is known to be patched already. -/
def isNoop (t : Transaction) : Bool :=
  t.entries.all fun e => e.state = some .alreadyApplied

/-! ## Validating -/

/-- Read the site of an entry and tell what state it is in. -/
def inspectEntry (i : Image) (e : Entry) : Entry × Option SiteFault :=
  match i.read e.offset e.length with
  | .error fault => ({ e with observed := none, state := none }, some fault)
  | .ok observed =>
    if e.newBytes.isPrefixOf observed then
      ({ e with observed := some observed, state := some .alreadyApplied }, none)
    else if e.expected.isPrefixOf observed then
      ({ e with observed := some observed, state := some .unpatched }, none)
    else
      ({ e with observed := some observed, state := none },
        some (.mismatch e.targetId e.offset e.expected (observed.take e.expected.length)))

/-- Check every site of an image without writing. Every site that fails is reported. -/
def validate (t : Transaction) (i : Image) : Transaction × Except Fault Unit :=
  if t.progress ≠ .pending ∧ t.progress ≠ .validated then
    (t, .error (.wrongProgress .pending t.progress))
  else
    match t.platforms.find? fun p => !i.hasSlice p with
    | some p => ({ t with progress := .failed }, .error (.missingSlice p))
    | none =>
      let results := t.entries.map (inspectEntry i)
      let entries := results.map Prod.fst
      match results.filterMap Prod.snd with
      | [] =>
        ({ t with entries, fileLength := i.size, progress := .validated }, .ok ())
      | failures => ({ t with entries, progress := .failed }, .error (.rejected failures))

end Transaction
end BinaryPatch
