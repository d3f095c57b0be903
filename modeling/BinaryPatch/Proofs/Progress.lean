/-
# How far a transaction can come

A transaction may be asked to validate, to commit and to roll back, in any order and each time on
another image.

| call | taken up when | ends | or |
| --- | --- | --- | --- |
| validate | pending, validated | validated | failed |
| commit | validated | applied | failed |
| roll back | applied | rolled back | failed |

A call that is not taken up changes nothing. That a commit never stops halfway rests on what every
call keeps (`Coherent`): a validated transaction knows a size that all of its spans lie below. So
on an image of that size every site can be read and written, and only the store is left to fail
(`commit_cases`).
-/

import BinaryPatch.Proofs.Transaction

namespace BinaryPatch
namespace Transaction

/-- What may be asked of a transaction. -/
inductive Call where
  | validate
  | commit (now : Timestamp)
  | rollback

namespace Call

/-- The progress that a refused call asks for. -/
def required : Call → Progress
  | validate => .pending
  | commit _ => .validated
  | rollback => .applied

/-- Whether the call is taken up by a transaction that has come so far. -/
def TakenUp (c : Call) (p : Progress) : Prop :=
  match c with
  | validate => p = .pending ∨ p = .validated
  | commit _ => p = .validated
  | rollback => p = .applied

/-- The progress that the call leads to. -/
def goal : Call → Progress
  | validate => .validated
  | commit _ => .applied
  | rollback => .rolledBack

end Call

/-- The transaction, the image and the result of a call. -/
def perform (t : Transaction) (c : Call) (i : Image) : Transaction × Image × Except Fault Unit :=
  match c with
  | .validate => ((t.validate i).1, i, (t.validate i).2)
  | .commit now => t.commit now i
  | .rollback => t.rollback i

/-- The transaction after calls, each on an image of its own. -/
def after (t : Transaction) : List (Call × Image) → Transaction
  | [] => t
  | (c, i) :: rest => (t.perform c i).1.after rest

/-! ## What every call keeps -/

/-- What holds of a transaction however far it has come. -/
structure Coherent (t : Transaction) : Prop where
  /-- The size that was validated bounds every span. -/
  bounded : t.progress = .validated → ∀ x ∈ t.entries, x.span.stop ≤ t.fileLength
  /-- What is applied has a time. -/
  dated : t.progress = .applied → ∃ time, t.committedAt = some time

/-- Only what is validated or applied has anything to keep. -/
theorem coherent_of_ne {t : Transaction} (hv : t.progress ≠ .validated)
    (ha : t.progress ≠ .applied) : t.Coherent :=
  ⟨fun hp => absurd hp hv, fun hp => absurd hp ha⟩

theorem coherent_of_build {reports : List Report} {c : Catalog} {bodies : List Body}
    {t : Transaction} (h : build reports c bodies = .ok t) : t.Coherent := by
  have hpending := (build_eq_ok h).1
  exact coherent_of_ne (by rw [hpending]; decide) (by rw [hpending]; decide)

theorem coherent_applied (t : Transaction) (now : Timestamp) (captured : List Patch) :
    (t.applied now captured).Coherent :=
  ⟨fun hp => (nomatch hp), fun _ => ⟨now, rfl⟩⟩

namespace Coherent

variable {t : Transaction} (h : t.Coherent)
include h

/-- On an image of the size that was validated, every patch fits. -/
theorem fits (hp : t.progress = .validated) {i : Image} (hsize : i.size = t.fileLength) :
    ∀ p ∈ t.patches, p.Fits i.size := by
  intro p hmem
  obtain ⟨x, hx, -, rfl⟩ := mem_patches.1 hmem
  have hbound := h.bounded hp x hx
  have hlength : x.newBytes.length ≤ x.length := Nat.le_max_right ..
  unfold Entry.span at hbound
  unfold Patch.Fits Entry.patch
  dsimp only at hbound ⊢
  omega

/-- **What a commit can do:** it is refused, it meets an image of another size, it finds nothing
to write, it writes and persists, or the store fails and the buffer is put back. -/
theorem commit_cases (now : Timestamp) (i : Image) :
    t.progress ≠ .validated ∧
        t.commit now i = (t, i, .error (.wrongProgress .validated t.progress)) ∨
      t.progress = .validated ∧
        (i.size ≠ t.fileLength ∧
            t.commit now i = ({ t with progress := .failed }, i,
              .error (.restore (.sizeChanged t.fileLength i.size))) ∨
          i.size = t.fileLength ∧
            (t.patches = [] ∧ t.commit now i = (t.applied now [], i, .ok ()) ∨
              t.patches ≠ [] ∧ i.store.fault = none ∧
                t.commit now i = (t.applied now (Bytes.captured i.buffer t.patches),
                  flushed i t.patches, .ok ()) ∨
              ∃ fault, i.store.fault = some fault ∧
                t.commit now i = ({ t with progress := .failed }, { i with dirty := true },
                  .error (.storage fault)))) := by
  by_cases hp : t.progress = .validated
  · refine .inr ⟨hp, ?_⟩
    by_cases hsize : i.size = t.fileLength
    · refine .inr ⟨hsize, ?_⟩
      rw [commit_eq now hp hsize (h.fits hp hsize)]
      by_cases hnil : t.patches = []
      · exact .inl ⟨hnil, if_pos hnil⟩
      · rw [if_neg hnil]
        cases hfault : i.store.fault with
        | none => exact .inr (.inl ⟨hnil, rfl, rfl⟩)
        | some fault => exact .inr (.inr ⟨fault, rfl, rfl⟩)
    · refine .inl ⟨hsize, ?_⟩
      unfold commit
      rw [if_neg (not_not.2 hp), if_pos hsize]
  · exact .inl ⟨hp, if_pos hp⟩

end Coherent

/-- **What a rollback can do:** it is refused, it finds nothing to write back, or it writes the
captured bytes back and persists, which may fail. -/
theorem rollback_cases (t : Transaction) (i : Image) :
    t.progress ≠ .applied ∧
        t.rollback i = (t, i, .error (.wrongProgress .applied t.progress)) ∨
      t.progress = .applied ∧
        (t.captured = [] ∧ t.rollback i = ({ t with progress := .rolledBack }, i, .ok ()) ∨
          t.captured ≠ [] ∧
            ((i.writeAndFlush t.captured).2 = .ok () ∧
                t.rollback i = ({ t with progress := .rolledBack },
                  (i.writeAndFlush t.captured).1, .ok ()) ∨
              ∃ fault, (i.writeAndFlush t.captured).2 = .error fault ∧
                t.rollback i = ({ t with progress := .failed },
                  (i.writeAndFlush t.captured).1, .error fault))) := by
  unfold rollback
  by_cases hp : t.progress = .applied
  · rw [if_neg (not_not.2 hp)]
    refine .inr ⟨hp, ?_⟩
    by_cases hnil : t.captured = []
    · exact .inl ⟨hnil, if_pos (List.isEmpty_iff.2 hnil)⟩
    · rw [if_neg (mt List.isEmpty_iff.1 hnil)]
      refine .inr ⟨hnil, ?_⟩
      rcases i.writeAndFlush t.captured with ⟨i', fault | -⟩
      · exact .inr ⟨fault, rfl, rfl⟩
      · exact .inl ⟨rfl, rfl⟩
  · exact .inl ⟨hp, if_pos hp⟩

/-- **Every call keeps a transaction coherent.** -/
theorem Coherent.perform {t : Transaction} (h : t.Coherent) (c : Call) (i : Image) :
    (t.perform c i).1.Coherent := by
  cases c with
  | validate =>
    unfold Transaction.perform
    rcases t.validate_cases i with ⟨-, h'⟩ | ⟨-, ⟨entries, fault, h'⟩ | ⟨hnone, h'⟩⟩ <;> rw [h']
    · exact h
    · exact coherent_of_ne nofun nofun
    · refine ⟨fun _ x' hx' => ?_, fun hp => (nomatch hp)⟩
      obtain ⟨x, hx, rfl⟩ := List.mem_map.1 hx'
      exact (inspected_of_inspectEntry (hnone x hx)).fits
  | commit now =>
    unfold Transaction.perform
    rcases h.commit_cases now i with ⟨-, h'⟩ | ⟨-, ⟨-, h'⟩ | ⟨-, ⟨-, h'⟩ | ⟨-, -, h'⟩ |
      ⟨fault, -, h'⟩⟩⟩ <;> dsimp only <;> rw [h']
    · exact h
    · exact coherent_of_ne nofun nofun
    · exact coherent_applied t now _
    · exact coherent_applied t now _
    · exact coherent_of_ne nofun nofun
  | rollback =>
    unfold Transaction.perform
    rcases t.rollback_cases i with ⟨-, h'⟩ | ⟨-, ⟨-, h'⟩ | ⟨-, ⟨-, h'⟩ | ⟨fault, -, h'⟩⟩⟩ <;>
      dsimp only <;> rw [h']
    · exact h
    · exact coherent_of_ne nofun nofun
    · exact coherent_of_ne nofun nofun
    · exact coherent_of_ne nofun nofun

/-- **So do any number of calls.** -/
theorem Coherent.after {t : Transaction} (h : t.Coherent) (calls : List (Call × Image)) :
    (t.after calls).Coherent := by
  induction calls generalizing t with
  | nil => exact h
  | cons call rest ih => exact ih (h.perform call.1 call.2)

/-! ## The state machine -/

/-- What every call does to a transaction, as far as its progress goes. -/
structure Lawful (t : Transaction) : Prop where
  /-- A call that is not taken up changes neither the transaction nor the image. -/
  refused : ∀ (c : Call) (i : Image), ¬ c.TakenUp t.progress →
    t.perform c i = (t, i, .error (.wrongProgress c.required t.progress))
  /-- A call that is taken up reaches its goal, or fails and leaves the transaction failed. -/
  takenUp : ∀ (c : Call) (i : Image), c.TakenUp t.progress →
    ((t.perform c i).2.2 = .ok () ∧ (t.perform c i).1.progress = c.goal) ∨
      ∃ fault, (t.perform c i).2.2 = .error fault ∧ (t.perform c i).1.progress = .failed
  /-- What has failed or was rolled back stays as it is. -/
  terminal : t.progress = .failed ∨ t.progress = .rolledBack →
    ∀ calls : List (Call × Image), t.after calls = t
  /-- On an image of the size that was validated, a commit fails only with its store. -/
  commit_error : t.progress = .validated → ∀ (now : Timestamp) (i : Image) (fault : Fault),
    i.size = t.fileLength → (t.commit now i).2.2 = .error fault →
      ∃ cause, i.store.fault = some cause ∧ fault = .storage cause
  /-- There is a restore point exactly while the transaction is applied. -/
  restorePoint : t.restorePoint?.isSome = true ↔ t.progress = .applied
  /-- The size that was validated bounds every span. -/
  bounded : t.progress = .validated → ∀ x ∈ t.entries, x.span.stop ≤ t.fileLength

theorem perform_of_not_takenUp {t : Transaction} {c : Call} (h : ¬ c.TakenUp t.progress)
    (i : Image) : t.perform c i = (t, i, .error (.wrongProgress c.required t.progress)) := by
  cases c with
  | validate =>
    unfold perform validate
    rw [if_pos (not_or.1 h)]
    rfl
  | commit now => exact if_pos h
  | rollback => exact if_pos h

theorem after_of_terminal {t : Transaction}
    (h : t.progress = .failed ∨ t.progress = .rolledBack) (calls : List (Call × Image)) :
    t.after calls = t := by
  induction calls with
  | nil => rfl
  | cons call rest ih =>
    have hrefused : ¬ call.1.TakenUp t.progress := by
      rcases h with h | h <;> rw [h] <;> cases call.1 <;> simp [Call.TakenUp]
    rw [after, perform_of_not_takenUp hrefused, ih]

namespace Coherent

variable {t : Transaction} (h : t.Coherent)
include h

theorem perform_takenUp {c : Call} (hc : c.TakenUp t.progress) (i : Image) :
    ((t.perform c i).2.2 = .ok () ∧ (t.perform c i).1.progress = c.goal) ∨
      ∃ fault, (t.perform c i).2.2 = .error fault ∧ (t.perform c i).1.progress = .failed := by
  cases c with
  | validate =>
    unfold Transaction.perform
    rcases t.validate_cases i with ⟨hp, -⟩ | ⟨-, ⟨entries, fault, h'⟩ | ⟨-, h'⟩⟩
    · exact absurd hc (not_or.2 hp)
    · rw [h']
      exact .inr ⟨fault, rfl, rfl⟩
    · rw [h']
      exact .inl ⟨rfl, rfl⟩
  | commit now =>
    unfold Transaction.perform
    rcases h.commit_cases now i with ⟨hp, -⟩ | ⟨-, ⟨-, h'⟩ | ⟨-, ⟨-, h'⟩ | ⟨-, -, h'⟩ |
      ⟨fault, -, h'⟩⟩⟩
    · exact absurd hc hp
    all_goals dsimp only; rw [h']
    · exact .inr ⟨_, rfl, rfl⟩
    · exact .inl ⟨rfl, rfl⟩
    · exact .inl ⟨rfl, rfl⟩
    · exact .inr ⟨_, rfl, rfl⟩
  | rollback =>
    unfold Transaction.perform
    rcases t.rollback_cases i with ⟨hp, -⟩ | ⟨-, ⟨-, h'⟩ | ⟨-, ⟨-, h'⟩ | ⟨fault, -, h'⟩⟩⟩
    · exact absurd hc hp
    all_goals dsimp only; rw [h']
    · exact .inl ⟨rfl, rfl⟩
    · exact .inl ⟨rfl, rfl⟩
    · exact .inr ⟨fault, rfl, rfl⟩

theorem commit_error (hp : t.progress = .validated) {now : Timestamp} {i : Image} {fault : Fault}
    (hsize : i.size = t.fileLength) (hcommit : (t.commit now i).2.2 = .error fault) :
    ∃ cause, i.store.fault = some cause ∧ fault = .storage cause := by
  rcases h.commit_cases now i with ⟨hne, -⟩ | ⟨-, ⟨hne, -⟩ | ⟨-, ⟨-, h'⟩ | ⟨-, -, h'⟩ |
    ⟨cause, hcause, h'⟩⟩⟩
  · exact absurd hp hne
  · exact absurd hsize hne
  all_goals rw [h'] at hcommit; cases hcommit
  exact ⟨cause, hcause, rfl⟩

theorem isSome_restorePoint?_iff : t.restorePoint?.isSome = true ↔ t.progress = .applied := by
  unfold restorePoint?
  by_cases hp : t.progress = .applied
  · obtain ⟨time, htime⟩ := h.dated hp
    rw [if_pos hp, htime]
    exact iff_of_true rfl hp
  · rw [if_neg hp]
    exact iff_of_false (by simp) hp

end Coherent

/-- **The calls on a transaction keep to the table above,** whatever calls it has been through,
on whatever images. -/
theorem lawful_after {reports : List Report} {c : Catalog} {bodies : List Body} {t : Transaction}
    (h : build reports c bodies = .ok t) (calls : List (Call × Image)) :
    (t.after calls).Lawful := by
  have hcoherent := (coherent_of_build h).after calls
  exact {
    refused := fun c i hc => perform_of_not_takenUp hc i
    takenUp := fun c i hc => hcoherent.perform_takenUp hc i
    terminal := after_of_terminal
    commit_error := fun hp now i fault => hcoherent.commit_error hp
    restorePoint := hcoherent.isSome_restorePoint?_iff
    bounded := hcoherent.bounded }

/-! ## The image -/

/-- A commit stages its patches and flushes them, or stages the captured bytes again. -/
theorem handledFrom_commit (t : Transaction) (now : Timestamp) (i : Image) :
    i.HandledFrom (t.commit now i).2.1 := by
  unfold commit
  dsimp only
  split
  · exact .staged .refl
  split
  · exact .staged .refl
  split
  · exact .staged .refl
  · exact .staged .refl
  · rename_i captured _ _
    split
    · rename_i hflushed
      exact hflushed ▸ i.handledFrom_stageAndFlush _
    · rename_i i' fault hfailed
      have hstaged := Image.stagedFrom_of_stageAndFlush_error hfailed
      have hundone := hstaged.trans (i'.stagedFrom_writeAll captured)
      generalize i'.writeAll captured = undone at hundone ⊢
      obtain ⟨i'', fault' | _⟩ := undone <;> exact .staged hundone

/-- **Every call stages bytes at most, and flushes them in the end.** -/
theorem handledFrom_perform (t : Transaction) (c : Call) (i : Image) :
    i.HandledFrom (t.perform c i).2.1 := by
  cases c with
  | validate => exact .staged .refl
  | commit now => exact t.handledFrom_commit now i
  | rollback =>
    rcases t.rollback_cases i with ⟨-, h⟩ | ⟨-, ⟨-, h⟩ | ⟨-, ⟨-, h⟩ | ⟨fault, -, h⟩⟩⟩
    all_goals unfold perform; dsimp only; rw [h]
    · exact .staged .refl
    · exact .staged .refl
    · exact i.handledFrom_writeAndFlush _
    · exact i.handledFrom_writeAndFlush _

/-- **Every call leaves an image that can come about.** -/
theorem reachable_perform {i : Image} (hi : i.Reachable) (t : Transaction) (c : Call) :
    (t.perform c i).2.1.Reachable :=
  hi.of_handledFrom (t.handledFrom_perform c i)

/-! ### One site patched, the other not -/

/-- Two targets, of which one is expected to hold less than is written and the other more. -/
def mixedCatalog : Catalog where
  version := "1"
  targets := [
    { id := "A", category := .stereo,
      variants := { linux := some { expected := [0xAA], payload := .bytes [0xBB, 0xCC] } } },
    { id := "B", category := .stereo,
      variants := { linux := some { expected := [0xDD, 0xDD], payload := .bytes [0xEE] } } }]

/-- The two targets, found at 20 and 24. -/
def mixedReport : Report where
  catalogVersion := "1"
  platform := .linux
  format := .elf
  verdicts := [
    .located ⟨"A", 20, .directSignature, none, some 20⟩,
    .located ⟨"B", 24, .directSignature, none, some 24⟩]

/-- The transaction that is built from the report. -/
def mixed : Transaction where
  catalogVersion := "1"
  platforms := [.linux]
  entries := [
    { targetId := "A", platform := .linux, offset := 20, expected := [0xAA],
      newBytes := [0xBB, 0xCC] },
    { targetId := "B", platform := .linux, offset := 24, expected := [0xDD, 0xDD],
      newBytes := [0xEE] }]

/-- The bytes of a file of 28 bytes in which the second target is patched already. -/
def mixedBytes : ByteArray :=
  ⟨#[0x7F, 0x45, 0x4C, 0x46, 2, 1, 1, 0, 0, 0, 0, 0, 0, 0, 0, 0, 3, 0, 0, 0,
    0xAA, 0, 0, 0, 0xEE, 0, 0, 0]⟩

/-- The file as an image. -/
def mixedImage : Image where
  store.bytes := mixedBytes
  buffer := mixedBytes
  container := ⟨.elf, 0, .whole .linux .identity 28, []⟩

theorem load_mixedImage : Image.load mixedImage.store = .ok mixedImage := rfl

theorem build_mixed : build [mixedReport] mixedCatalog [] = .ok mixed := by
  have hentries : entriesOf mixedCatalog [] [mixedReport] = .ok mixed.entries := by
    decide +kernel
  -- sorting does not compute, but the entries stand in order
  have hsorted : mixed.entries.mergeSort (fun a b => a.offset ≤ b.offset) = mixed.entries :=
    List.mergeSort_of_pairwise (by decide)
  unfold build
  rw [hentries]
  dsimp only
  rw [hsorted]
  rfl

/-- The transaction can be validated and committed, so the table is not about refusals only. -/
theorem lawful_after_mixed :
    build [mixedReport] mixedCatalog [] = .ok mixed ∧
      (mixed.after [(.validate, mixedImage), (.commit ⟨0, 0⟩, mixedImage)]).progress = .applied ∧
      (mixed.after [(.validate, mixedImage), (.commit ⟨0, 0⟩, mixedImage)]).Lawful :=
  ⟨build_mixed, by decide +kernel, lawful_after build_mixed _⟩

end Transaction
end BinaryPatch
