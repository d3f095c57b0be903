/-
# What a failed run leaves behind

A run of the command that patches a file goes through its inputs first, and commits only when all
of them are there. Whatever fails up to the commit, and the commit itself, leaves every file as it
was. Only then is the restore point saved, so that it can be known what was written; and when that
fails the run fails, although the file has been replaced.

| fails | the file |
| --- | --- |
| an input, the search, the validation, the commit | as it was |
| saving the restore point | patched |

So a run that fails leaves the file alone exactly when it would have failed without a restore point,
too (`Command.contents_runApply_iff`).
-/

import BinaryPatch.Command.Run
import BinaryPatch.Proofs.Apply
import BinaryPatch.Proofs.CatalogDocument
import BinaryPatch.Proofs.Coverage

namespace BinaryPatch

/-! ## Files -/

namespace FileSystem

variable (fs : FileSystem) (path : String) (bytes : ByteArray)

/-- A store that was not persisted leaves the file alone. -/
theorem adopt_of_not_persisted {s : Store} (h : s.persists = 0) : fs.adopt path s = fs :=
  if_pos h

/-- A store that was persisted is what the file holds. -/
theorem contents_adopt {s : Store} (h : s.persists ≠ 0) :
    (fs.adopt path s).contents path = some s.bytes := by
  rw [adopt, if_neg h, contents_put]

end FileSystem

namespace Command

variable {fs : FileSystem} {file : String} {image : Image}

/-- An image that was opened holds what its file holds, and has not been persisted. -/
structure Opened (fs : FileSystem) (file : String) (image : Image) : Prop where
  contents : fs.contents file = some image.buffer
  persists : image.store.persists = 0

theorem opened_of_openImage (h : openImage fs file = .ok image) : Opened fs file image := by
  unfold openImage loadImage FileSystem.read Image.load at h
  cases hfault : fs.readFault file with
  | some fault => simp [hfault] at h
  | none =>
    cases hcontents : fs.contents file with
    | none => simp [hfault, hcontents] at h
    | some bytes =>
      simp only [hfault, hcontents] at h
      cases hdetect : Container.detect (fs.store file bytes).bytes with
      | error fault => simp [hdetect] at h
      | ok container =>
        simp only [hdetect, Except.ok.injEq] at h
        subst h
        exact ⟨hcontents, rfl⟩

/-! ## The restore point comes last -/

/-- How a run ends that has committed a transaction: its restore point is saved, if one is asked
for. -/
def saved (fs : FileSystem) (out : List String) (t : Transaction) : Option String → Ending
  | none => { files := fs, out }
  | some path => saveRestorePoint fs out t path

/-- **What saving a restore point can do:** it succeeds, or a point with captured bytes cannot be
written, and no file changes. -/
theorem saved_cases (fs : FileSystem) (out : List String) (t : Transaction)
    (point : Option String) :
    (saved fs out t point).failure = none ∨
      (saved fs out t point).files = fs ∧ t.captured ≠ [] ∧
        ∃ path fault, point = some path ∧ fs.writeFault path = some fault := by
  cases point with
  | none => exact .inl rfl
  | some path =>
    unfold saved saveRestorePoint
    cases hpoint : t.restorePoint? with
    | none => exact .inl rfl
    | some p =>
      have hranges : p.ranges = t.captured := by
        unfold Transaction.restorePoint? at hpoint
        split at hpoint
        · obtain ⟨time, -, rfl⟩ := Option.map_eq_some_iff.1 hpoint
          rfl
        · cases hpoint
      dsimp only
      split
      · exact .inl rfl
      · rename_i hne
        rw [hranges, List.isEmpty_iff] at hne
        unfold FileSystem.write
        cases hfault : fs.writeFault path with
        | none => exact .inl rfl
        | some fault => exact .inr ⟨rfl, hne, path, fault, rfl, hfault⟩

/-- What a command does with its restore point. -/
inductive SavesLast (fs : FileSystem) (file : String) (run : Option String → Ending) : Prop where
  /-- It ends before, with or without one, and leaves every file as it was. -/
  | settled (ending : Ending) (hfiles : ending.files = fs) (hrun : ∀ point, run point = ending)
  /-- It saves the point of a transaction. If the transaction has captured any bytes, the file has
  changed by then. -/
  | saving (fs' : FileSystem) (out : List String) (t : Transaction)
    (hfaults : fs'.writeFault = fs.writeFault)
    (hchanged : t.captured ≠ [] → fs'.contents file ≠ fs.contents file)
    (hrun : ∀ point, run point = saved fs' out t point)

/-- A run on an image that was opened either leaves its file alone and fails, or commits and then
saves the restore point. -/
theorem savesLast_runPatch (hopened : Opened fs file image) (now : Timestamp) (engine : Engine)
    (reports : List Report) (bodies : List Body) (out : List String) :
    SavesLast fs file (runPatch fs now file engine image reports bodies out) := by
  rcases engine.applyReports_cases now image reports bodies with ⟨dirty, fault, h⟩ |
    ⟨t, image', -, h, hready, hcatalog, hi⟩
  · refine .settled (.faulted fs out fault) rfl fun point => ?_
    unfold runPatch
    rw [h]
    dsimp only
    rw [fs.adopt_of_not_persisted file hopened.persists]
  · refine .saving (fs.adopt file image'.store)
      (out ++ Console.transaction (t.applied now (Bytes.captured image.buffer t.patches)))
      (t.applied now (Bytes.captured image.buffer t.patches)) ?_ (fun hcaptured => ?_)
      fun point => ?_
    · unfold FileSystem.adopt
      split <;> rfl
    · rcases hi with ⟨hnil, -⟩ | ⟨hne, rfl⟩
      · rw [hnil] at hcaptured
        exact absurd rfl hcaptured
      · have hpatched : engine.Patched image (Transaction.flushed image t.patches) t.entries :=
          Engine.patched_of_ready hready hcatalog (.inr ⟨hne, rfl⟩)
        obtain ⟨p, hp⟩ := List.exists_mem_of_ne_nil _ hne
        obtain ⟨x, hx, hw, -⟩ := Transaction.mem_patches.1 hp
        rw [fs.contents_adopt file (Nat.succ_ne_zero _), hopened.contents]
        exact fun heq => hpatched.buffer_ne hx hw (Option.some.inj heq)
    · unfold runPatch
      rw [h]
      cases point <;> rfl

/-- **The command saves its restore point last.** -/
theorem savesLast_runApply (fs : FileSystem) (now : Timestamp) (limits : Limits) (file : String)
    (catalog : Option String) (requests : List String) (dryRun : Bool) :
    SavesLast fs file (runApply fs now limits file catalog requests dryRun) := by
  unfold runApply
  cases loadEngine fs limits catalog with
  | error failure => exact .settled (.failed fs [] failure) rfl fun _ => rfl
  | ok engine =>
    cases himage : openImage fs file with
    | error failure => exact .settled (.failed fs [] failure) rfl fun _ => rfl
    | ok image =>
      dsimp only
      cases loadBodies fs engine image.primary.platform requests with
      | error failure => exact .settled (.failed fs [] failure) rfl fun _ => rfl
      | ok bodies =>
        dsimp only
        cases engine.resolve image with
        | error fault => exact .settled (.failed fs [] (.ofFault fault)) rfl fun _ => rfl
        | ok reports =>
          dsimp only
          cases incomplete? reports with
          | some fault =>
            exact .settled (.faulted fs _ fault) rfl fun _ => rfl
          | none =>
            cases dryRun with
            | true =>
              simp only [if_true]
              cases engine.prepare image reports bodies with
              | error fault => exact .settled (.faulted fs _ fault) rfl fun _ => rfl
              | ok t => exact .settled _ rfl fun _ => rfl
            | false =>
              exact savesLast_runPatch (opened_of_openImage himage) now engine reports bodies _

/-- **When a run that fails leaves the file alone.** It does exactly when it would have failed
without a restore point as well, and then it leaves every file as it was. Otherwise it has failed
to write the restore point, and leaves the files that the run without one leaves. -/
theorem contents_runApply_iff {fs : FileSystem} {now : Timestamp} {limits : Limits} {file : String}
    {catalog : Option String} {requests : List String} {dryRun : Bool} {point : Option String}
    (h : (runApply fs now limits file catalog requests dryRun point).failure.isSome = true) :
    ((runApply fs now limits file catalog requests dryRun point).files.contents file =
        fs.contents file ↔
      (runApply fs now limits file catalog requests dryRun none).failure.isSome = true) ∧
    ((runApply fs now limits file catalog requests dryRun none).failure.isSome = true →
      (runApply fs now limits file catalog requests dryRun point).files = fs) ∧
    ((runApply fs now limits file catalog requests dryRun none).failure = none →
      ∃ path fault, point = some path ∧ fs.writeFault path = some fault ∧
        (runApply fs now limits file catalog requests dryRun point).files =
          (runApply fs now limits file catalog requests dryRun none).files) := by
  cases savesLast_runApply fs now limits file catalog requests dryRun with
  | settled ending hfiles hrun =>
    rw [hrun point] at h ⊢
    rw [hrun none, hfiles]
    refine ⟨iff_of_true rfl h, fun _ => rfl, fun hnone => ?_⟩
    rw [hnone] at h
    cases h
  | saving fs' out t hfaults hchanged hrun =>
    rw [hrun point] at h ⊢
    rw [hrun none]
    rcases saved_cases fs' out t point with hnone | ⟨hfiles, hcaptured, path, fault, hpoint, hfault⟩
    · rw [hnone] at h
      cases h
    · have hwithout : (saved fs' out t none).failure.isSome = false := rfl
      rw [hfiles, hwithout]
      rw [hfaults] at hfault
      exact ⟨iff_of_false (hchanged hcaptured) Bool.false_ne_true,
        fun hfailed => absurd hfailed Bool.false_ne_true,
        fun _ => ⟨path, fault, hpoint, hfault, rfl⟩⟩

/-! ### A restore point that cannot be written -/

theorem loadEngine_eq_ok {limits : Limits} {path text : String} {c : Catalog}
    (htext : fs.readText path = .ok text) (hload : Catalog.load text = .ok c)
    (hvalid : c.validate = .ok ()) :
    loadEngine fs limits (some path) = .ok ⟨c, limits, hvalid⟩ := by
  simp only [loadEngine, loadCatalog, readCatalog, htext, hload, Engine.ofCatalog_eq_ok hvalid]

/-- With complete reports and without bodies, a run comes to the patching of the image. -/
theorem runApply_eq_runPatch {limits : Limits} {catalog : Option String} {engine : Engine}
    {reports : List Report} (hengine : loadEngine fs limits catalog = .ok engine)
    (himage : openImage fs file = .ok image) (hreports : engine.resolve image = .ok reports)
    (hcomplete : incomplete? reports = none) (now : Timestamp) (point : Option String) :
    runApply fs now limits file catalog [] false point =
      runPatch fs now file engine image reports [] (reports.flatMap Console.report) point := by
  simp [runApply, hengine, himage, hreports, hcomplete, loadBodies]

/-- A module and its catalog, where nothing can be written to `p`. -/
def unwritable : FileSystem where
  files := [("m", Engine.relapsingImage.buffer), ("c", Engine.relapsing.catalog.save.toUTF8)]
  writeFault path := if path = "p" then some .notFound else none

/-- What a run finds in the module. -/
def relapsingReport : Report where
  catalogVersion := "1"
  platform := .linux
  format := .elf
  verdicts := [.located ⟨"A", 20, .fuzzySearch, none, some 20⟩]

/-- A run there, with a restore point at a path. -/
def runUnwritable (point : Option String) : Ending :=
  runApply unwritable ⟨0, 0⟩ {} "m" (some "c") [] false point

theorem runUnwritable_eq (point : Option String) :
    runUnwritable point = runPatch unwritable ⟨0, 0⟩ "m" Engine.relapsing Engine.relapsingImage
      [relapsingReport] [] ([relapsingReport].flatMap Console.report) point := by
  have hload : Catalog.load Engine.relapsing.catalog.save = .ok Engine.relapsing.catalog := by
    rw [Catalog.load_save, Engine.relapsing.sound]
    rfl
  have hengine : loadEngine unwritable {} (some "c") = .ok Engine.relapsing :=
    loadEngine_eq_ok (FileSystem.readText_eq_ok rfl rfl) hload Engine.relapsing.sound
  have hreports : Engine.relapsing.resolve Engine.relapsingImage = .ok [relapsingReport] := by
    decide +kernel
  exact runApply_eq_runPatch hengine rfl hreports rfl ⟨0, 0⟩ point

theorem failure_runUnwritable : (runUnwritable (some "p")).failure.isSome = true := by
  rw [runUnwritable_eq]
  decide +kernel

/-- **A run that fails may have changed the file.** The module is patched, and then the run fails,
because its restore point cannot be written. -/
theorem not_contents_runApply :
    ¬ ∀ (fs : FileSystem) (now : Timestamp) (limits : Limits) (file : String)
      (catalog : Option String) (requests : List String) (dryRun : Bool) (point : Option String),
      (runApply fs now limits file catalog requests dryRun point).failure.isSome = true →
        (runApply fs now limits file catalog requests dryRun point).files.contents file =
          fs.contents file := by
  intro hall
  have hsame : (runUnwritable (some "p")).files.contents "m" = unwritable.contents "m" :=
    hall unwritable ⟨0, 0⟩ {} "m" (some "c") [] false (some "p") failure_runUnwritable
  have hbefore : (unwritable.contents "m").bind (·[20]?) = some 0xAA := by decide +kernel
  have hafter : ((runUnwritable (some "p")).files.contents "m").bind (·[20]?) = some 0xBB := by
    rw [runUnwritable_eq]
    decide +kernel
  rw [hsame, hbefore] at hafter
  exact absurd hafter (by decide)

/-- Without a restore point the run succeeds. So the file is not what it was, but what the run
without one has made of it. -/
theorem contents_runApply_unwritable :
    (runUnwritable (some "p")).failure.isSome = true ∧
      (runUnwritable (some "p")).files.contents "m" ≠ unwritable.contents "m" ∧
      (runUnwritable (some "p")).files = (runUnwritable none).files := by
  have hwithout : (runUnwritable none).failure = none := by
    rw [runUnwritable_eq]
    decide +kernel
  obtain ⟨hiff, -, hfiles⟩ := contents_runApply_iff failure_runUnwritable
  obtain ⟨path, fault, -, -, heq⟩ := hfiles hwithout
  refine ⟨failure_runUnwritable, fun hsame => ?_, heq⟩
  have hfailed : (runUnwritable none).failure.isSome = true := hiff.1 hsame
  rw [hwithout] at hfailed
  cases hfailed

end Command
end BinaryPatch
