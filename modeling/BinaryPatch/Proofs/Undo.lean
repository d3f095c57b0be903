/-
# Undoing a commit

A rollback writes back what the commit has captured. Taken at once, it gives the image its old
bytes again, whatever the commit wrote, and how often the two persist depends on whether there was
anything to write (`rollback_commit`).

A rollback and a restore stage ranges and then persist. Both refuse what does not fit before
anything is staged, and a persist that fails leaves the store as it was. But they do not take the
staged ranges out of the buffer again, as a commit does. So an undo that fails with the store leaves
the buffer changed, unless it held the ranges already (`undo_error`).
-/

import BinaryPatch.Proofs.Progress

namespace BinaryPatch

/-! ## Staging ranges and persisting -/

namespace Image

/-- Ranges that fit are staged and persisted as the patches of a commit are. -/
theorem writeAndFlush_eq_stageAndFlush {i : Image} {ps : List Patch}
    (h : ∀ p ∈ ps, p.Fits i.size) : i.writeAndFlush ps = Transaction.stageAndFlush i ps := by
  have hsame : i.writeAll ps = i.writeEach ps := (writeAll_eq h).trans (writeEach_eq h).symm
  unfold writeAndFlush
  exact hsame ▸ rfl

/-- **Staging and persisting fails in two ways:** before a range is staged, with a range that does
not fit, or after all of them are, with the store. -/
theorem of_writeAndFlush_error {i i' : Image} {ps : List Patch} {fault : Fault}
    (h : i.writeAndFlush ps = (i', .error fault)) :
    (∃ cause, fault = .site cause) ∧ i' = i ∨
      (∃ cause, fault = .storage cause) ∧ i' = i.staged ps := by
  cases hmisfit : i.misfit? ps with
  | some cause =>
    rw [writeAndFlush, writeAll, hmisfit] at h
    cases h
    exact .inl ⟨⟨cause, rfl⟩, rfl⟩
  | none =>
    have hfit := misfit?_eq_none_iff.1 hmisfit
    rw [writeAndFlush_eq_stageAndFlush hfit, Transaction.stageAndFlush_eq hfit] at h
    cases hfault : i.store.fault with
    | none =>
      rw [hfault] at h
      cases h
    | some cause =>
      rw [hfault] at h
      cases h
      exact .inr ⟨⟨cause, rfl⟩, rfl⟩

/-- **Captured ranges that are staged and persisted give back the buffer they come from,** in every
image that agrees with it at the places that the patches do not cover. -/
theorem writeAndFlush_captured {i : Image} {b : ByteArray} {ps : List Patch}
    (hfit : ∀ p ∈ ps, p.Fits b.size) (hsize : i.size = b.size)
    (h : ∀ k : Nat, (∀ p ∈ ps, ¬ p.Covers k) → i.buffer[k]? = b[k]?)
    (hfault : i.store.fault = none) :
    i.writeAndFlush (Bytes.captured b ps) =
      ({ i with
          buffer := b
          store := { i.store with bytes := b, persists := i.store.persists + 1 }
          dirty := false }, .ok ()) := by
  have hfit' : ∀ c ∈ Bytes.captured b ps, c.Fits i.size :=
    fun c hc => hsize ▸ Bytes.fits_captured hfit hc
  rw [writeAndFlush_eq_stageAndFlush hfit', Transaction.stageAndFlush_eq hfit', hfault]
  dsimp only
  rw [Transaction.flushed, Bytes.overwriteAll_captured hfit hsize h]

end Image

namespace Transaction

/-! ## Rolling back at once -/

theorem patches_eq_nil_iff {t : Transaction} :
    t.patches = [] ↔ ∀ x ∈ t.entries, x.state ≠ some .unpatched := by
  simp [patches, List.filter_eq_nil_iff, Entry.needsWrite]

/-- **What a commit has captured undoes it:** the image that it leaves persists once more, with the
bytes that it had. -/
theorem writeAndFlush_flushed {i : Image} {ps : List Patch} (h : ∀ p ∈ ps, p.Fits i.size)
    (hfault : i.store.fault = none) :
    (flushed i ps).writeAndFlush (Bytes.captured i.buffer ps) =
      ({ i with
          store := { i.store with bytes := i.buffer, persists := i.store.persists + 2 }
          dirty := false }, .ok ()) :=
  Image.writeAndFlush_captured h (Bytes.size_overwriteAll h)
    (fun _ hk => Bytes.getElem?_overwriteAll_of_not_covers h hk) hfault

/-- **A rollback undoes the commit before it.** Whatever calls the transaction has been through,
if a commit succeeds, so does a rollback right after it, and the buffer is what it was before the
commit; so are the stored bytes, if the image can come about and was not dirty. The two persist
twice if a site was unpatched, and otherwise leave the image alone. -/
theorem rollback_commit {reports : List Report} {c : Catalog} {bodies : List Body}
    {t t' : Transaction} {calls : List (Call × Image)} {now : Timestamp} {i i' : Image}
    (hbuild : build reports c bodies = .ok t)
    (hcommit : (t.after calls).commit now i = (t', i', .ok ())) :
    ∃ t'' i'', t'.rollback i' = (t'', i'', .ok ()) ∧ i''.buffer = i.buffer ∧
      (i.Reachable → i.dirty = false → i''.store.bytes = i.store.bytes) ∧
      ((∃ x ∈ (t.after calls).entries, x.state = some .unpatched) ∧
          i''.store.persists = i.store.persists + 2 ∨
        (∀ x ∈ (t.after calls).entries, x.state ≠ some .unpatched) ∧ i'' = i) := by
  have hcoherent := (coherent_of_build hbuild).after calls
  generalize t.after calls = u at hcoherent hcommit ⊢
  rcases hcoherent.commit_cases now i with ⟨-, h⟩ | ⟨hp, ⟨-, h⟩ | ⟨hsize, ⟨hnil, h⟩ |
    ⟨hne, hfault, h⟩ | ⟨fault, -, h⟩⟩⟩
  · rw [h] at hcommit
    cases hcommit
  · rw [h] at hcommit
    cases hcommit
  · -- nothing was written, so nothing is captured
    rw [h] at hcommit
    cases hcommit
    exact ⟨_, i, rfl, rfl, fun _ _ => rfl, .inr ⟨patches_eq_nil_iff.1 hnil, rfl⟩⟩
  · rw [h] at hcommit
    cases hcommit
    have hundo := writeAndFlush_flushed (hcoherent.fits hp hsize) hfault
    have hcaptured : Bytes.captured i.buffer u.patches ≠ [] := by simpa [Bytes.captured] using hne
    rcases (u.applied now (Bytes.captured i.buffer u.patches)).rollback_cases
      (flushed i u.patches) with ⟨hne', -⟩ | ⟨-, ⟨hnil, -⟩ | ⟨-, ⟨-, h'⟩ | ⟨fault, herror, -⟩⟩⟩
    · exact absurd rfl hne'
    · exact absurd hnil hcaptured
    · refine ⟨_, _, h', ?_⟩
      dsimp only [Transaction.applied]
      rw [hundo]
      refine ⟨rfl, fun hi hclean => (hi.store_bytes_eq hclean).symm, .inl ⟨?_, rfl⟩⟩
      by_contra hnone
      exact hne (patches_eq_nil_iff.2 fun x hx hs => hnone ⟨x, hx, hs⟩)
    · dsimp only [Transaction.applied] at herror
      rw [hundo] at herror
      cases herror
  · rw [h] at hcommit
    cases hcommit

/-- Of two sites one is unpatched, so the commit persists, and so does its rollback. -/
theorem rollback_commit_mixed :
    build [mixedReport] mixedCatalog [] = .ok mixed ∧ mixedImage.Reachable ∧
      ∃ t' i' t'' i'',
        (mixed.after [(.validate, mixedImage)]).commit ⟨0, 0⟩ mixedImage = (t', i', .ok ()) ∧
          i'.buffer ≠ mixedBytes ∧ t'.rollback i' = (t'', i'', .ok ()) ∧
          i''.buffer = mixedBytes ∧ i''.store.bytes = mixedBytes ∧ i''.store.persists = 2 := by
  have hi : mixedImage.Reachable := .load load_mixedImage
  have hok : ((mixed.after [(.validate, mixedImage)]).commit ⟨0, 0⟩ mixedImage).2.2 = .ok () := by
    decide +kernel
  have hwritten : ((mixed.after [(.validate, mixedImage)]).commit ⟨0, 0⟩ mixedImage).2.1.buffer ≠
      mixedBytes := by
    decide +kernel
  have hunpatched : ∃ x ∈ (mixed.after [(.validate, mixedImage)]).entries,
      x.state = some .unpatched := by
    decide +kernel
  obtain ⟨⟨t', i', result⟩, hcommit⟩ :
      ∃ r, (mixed.after [(.validate, mixedImage)]).commit ⟨0, 0⟩ mixedImage = r := ⟨_, rfl⟩
  rw [hcommit] at hok hwritten
  obtain rfl : result = .ok () := hok
  obtain ⟨t'', i'', hrollback, hbuffer, hstored, hpersists⟩ :=
    rollback_commit build_mixed hcommit
  refine ⟨build_mixed, hi, t', i', t'', i'', hcommit, hwritten, hrollback, hbuffer,
    hstored hi rfl, ?_⟩
  rcases hpersists with ⟨-, h⟩ | ⟨hall, -⟩
  · exact h
  · obtain ⟨x, hx, hs⟩ := hunpatched
    exact absurd hs (hall x hx)

/-! ## An undo that fails -/

/-- **What an undo leaves when it fails.** Let a rollback, of any transaction, or a restore, of
any restore point, fail on an image. Then the store is what it was, and the buffer is what it was
exactly when the store is not to blame or writing the ranges changes nothing. -/
theorem undo_error {ranges : List Patch} {i i' : Image} {fault : Fault}
    (h : (∃ t t' : Transaction, t.captured = ranges ∧ t.rollback i = (t', i', .error fault)) ∨
      ∃ p : RestorePoint, p.ranges = ranges ∧ p.restore i = (i', .error fault)) :
    i'.store = i.store ∧
      (i'.buffer = i.buffer ↔
        ((∃ cause, fault = .storage cause) → Bytes.overwriteAll i.buffer ranges = i.buffer)) := by
  -- a refused undo does nothing, any other one stages and persists
  have hcases : i' = i ∧ (¬ ∃ cause, fault = .storage cause) ∨
      i.writeAndFlush ranges = (i', .error fault) := by
    rcases h with ⟨t, t', rfl, h⟩ | ⟨p, rfl, h⟩
    · rcases t.rollback_cases i with ⟨-, h'⟩ | ⟨-, ⟨-, h'⟩ | ⟨-, ⟨-, h'⟩ | ⟨cause, herror, h'⟩⟩⟩
      all_goals rw [h'] at h; cases h
      · exact .inl ⟨rfl, fun ⟨cause, hcause⟩ => nomatch hcause⟩
      · exact .inr (Prod.ext rfl herror)
    · unfold RestorePoint.restore at h
      split at h
      · cases h
        exact .inl ⟨rfl, fun ⟨cause, hcause⟩ => nomatch hcause⟩
      · exact .inr h
  rcases hcases with ⟨rfl, hcause⟩ | h
  · exact ⟨rfl, iff_of_true rfl fun hstorage => absurd hstorage hcause⟩
  · rcases Image.of_writeAndFlush_error h with ⟨⟨cause, rfl⟩, rfl⟩ | ⟨hstorage, rfl⟩
    · exact ⟨rfl, iff_of_true rfl fun ⟨cause, hcause⟩ => nomatch hcause⟩
    · exact ⟨rfl, fun hsame _ => hsame, fun hall => hall hstorage⟩

/-- The image that a commit has patched, its store refusing since. -/
def refusing : Image :=
  ((mixed.after [(.validate, mixedImage)]).commit ⟨0, 0⟩ mixedImage).2.1.setFault (some .disabled)

theorem reachable_refusing : refusing.Reachable :=
  .setFault (reachable_perform (.load load_mixedImage) _ (.commit ⟨0, 0⟩)) _

/-- The restore point of that commit. -/
def mixedPoint : RestorePoint where
  catalogVersion := "1"
  platforms := [.linux]
  fileLength := 28
  capturedAt := ⟨0, 0⟩
  ranges := [⟨20, [0xAA, 0]⟩]

example : (mixed.after [(.validate, mixedImage), (.commit ⟨0, 0⟩, mixedImage)]).restorePoint? =
    some mixedPoint := by
  decide +kernel

/-- With its store refusing, the rollback of the commit fails and leaves the buffer changed. -/
theorem undo_error_refusing :
    ∃ t' i', (mixed.after [(.validate, mixedImage), (.commit ⟨0, 0⟩, mixedImage)]).rollback
        refusing = (t', i', .error (.storage .disabled)) ∧
      i'.store = refusing.store ∧ i'.buffer ≠ refusing.buffer := by
  have hfails : ∃ t' i', (mixed.after [(.validate, mixedImage),
      (.commit ⟨0, 0⟩, mixedImage)]).rollback refusing =
        (t', i', .error (.storage .disabled)) := ⟨_, _, rfl⟩
  obtain ⟨t', i', hrollback⟩ := hfails
  obtain ⟨hstore, hbuffer⟩ := undo_error (.inl ⟨_, t', rfl, hrollback⟩)
  refine ⟨t', i', hrollback, hstore, fun hsame => ?_⟩
  exact absurd (hbuffer.1 hsame ⟨_, rfl⟩) (by decide +kernel)

/-- **An undo that fails may leave the buffer changed.** When the store refuses, a rollback of a
committed transaction leaves the old bytes in the buffer, and so does a restore. -/
theorem not_undo_error_unchanged :
    (¬ ∀ (reports : List Report) (c : Catalog) (bodies : List Body) (t t' : Transaction)
        (calls : List (Call × Image)) (i i' : Image) (fault : Fault), c.validate = .ok () →
      build reports c bodies = .ok t → (t.after calls).progress = .applied → i.Reachable →
        (t.after calls).rollback i = (t', i', .error fault) →
          i'.buffer = i.buffer ∧ i'.store.bytes = i.store.bytes) ∧
      ¬ ∀ (p : RestorePoint) (i i' : Image) (fault : Fault), i.Reachable →
        p.restore i = (i', .error fault) →
          i'.buffer = i.buffer ∧ i'.store.bytes = i.store.bytes := by
  constructor
  · intro hall
    have hsame := (hall [mixedReport] mixedCatalog [] mixed _
      [(.validate, mixedImage), (.commit ⟨0, 0⟩, mixedImage)] refusing _ (.storage .disabled)
      (by decide +kernel) build_mixed (by decide +kernel) reachable_refusing rfl).1
    exact absurd hsame (by decide +kernel)
  · intro hall
    have hsame := (hall mixedPoint refusing _ (.storage .disabled) reachable_refusing rfl).1
    exact absurd hsame (by decide +kernel)

end Transaction
end BinaryPatch
