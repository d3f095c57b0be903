/-
# Committing and rolling back

A commit captures the bytes that it is about to overwrite, stages every write and persists
the image once. When that fails it stages the captured bytes again, so that the buffer is
what it was. Sites that are patched already are not written; if all are, nothing is persisted.
-/

import BinaryPatch.Transaction.Basic

namespace BinaryPatch
namespace Transaction

/-- Read the bytes that patches will overwrite. -/
def capture (i : Image) : List Patch → Except SiteFault (List Patch)
  | [] => .ok []
  | p :: rest =>
    match i.read p.offset p.bytes.length with
    | .error fault => .error fault
    | .ok bytes => (capture i rest).map (⟨p.offset, bytes⟩ :: ·)

/-- Stage patches and persist the image. -/
def stageAndFlush (i : Image) (patches : List Patch) : Image × Except Fault Unit :=
  match i.writeEach patches with
  | (i, .error fault) => (i, .error (.site fault))
  | (i, .ok ()) =>
    match i.flush with
    | .error fault => (i, .error (.storage fault))
    | .ok i => (i, .ok ())

/-- The transaction once its writes have reached the store. -/
def applied (t : Transaction) (now : Timestamp) (captured : List Patch) : Transaction :=
  { t with captured, committedAt := some now, progress := .applied }

/-- Write a validated transaction to an image. -/
def commit (t : Transaction) (now : Timestamp) (i : Image) :
    Transaction × Image × Except Fault Unit :=
  if t.progress ≠ .validated then (t, i, .error (.wrongProgress .validated t.progress))
  else if i.size ≠ t.fileLength then
    ({ t with progress := .failed }, i, .error (.restore (.sizeChanged t.fileLength i.size)))
  else
    let patches := (t.entries.filter Entry.needsWrite).map Entry.patch
    match capture i patches with
    | .error fault => (t, i, .error (.site fault))
    | .ok [] => (t.applied now [], i, .ok ())
    | .ok captured =>
      match stageAndFlush i patches with
      | (i, .ok ()) => (t.applied now captured, i, .ok ())
      | (i, .error fault) =>
        match i.writeAll captured with
        | (i, .error fault) => (t, i, .error (.site fault))
        | (i, .ok ()) => ({ t with progress := .failed }, i, .error fault)

/-- Write back what the commit has overwritten. -/
def rollback (t : Transaction) (i : Image) : Transaction × Image × Except Fault Unit :=
  if t.progress ≠ .applied then (t, i, .error (.wrongProgress .applied t.progress))
  else if t.captured.isEmpty then ({ t with progress := .rolledBack }, i, .ok ())
  else
    match i.writeAndFlush t.captured with
    | (i, .ok ()) => ({ t with progress := .rolledBack }, i, .ok ())
    | (i, .error fault) => ({ t with progress := .failed }, i, .error fault)

/-- The restore point of the last commit. -/
def restorePoint? (t : Transaction) : Option RestorePoint :=
  if t.progress = .applied then
    t.committedAt.map fun time =>
      ⟨t.catalogVersion, t.platforms, t.fileLength, time, t.captured⟩
  else none

end Transaction
end BinaryPatch
