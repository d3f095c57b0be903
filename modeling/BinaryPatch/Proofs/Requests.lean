/-
# Everything that may be asked of an image

A loaded image is asked for one thing after another, and every request is one of a few kinds:

| request | stages | flushes |
| --- | --- | --- |
| read, plan, validate | nothing | nothing |
| write | its bytes, if they fit | nothing |
| flush | nothing | the buffer |
| set a fault | nothing | nothing |
| commit, apply, roll back, restore | patches | the buffer, once they are staged |

So whatever a request does, it stages bytes and may then flush, once and last
(`handledFrom_perform`). Staging touches the buffer alone, and flushing the store alone. Hence any
number of requests leaves the size and the header of the file as they were, an image that is not
dirty holds what is stored, and the stored bytes only ever change to those of the buffer
(`steady_after`).
-/

import BinaryPatch.Proofs.Apply
import BinaryPatch.Proofs.Progress

namespace BinaryPatch
namespace Image

/-! ## Staging and flushing -/

/-- **Staging touches the buffer alone,** and marks an image that it changes. -/
structure SameButBuffer (i i' : Image) : Prop where
  size_eq : i'.size = i.size
  container_eq : i'.container = i.container
  store_eq : i'.store = i.store
  marked : i' = i ∨ i'.dirty = true

theorem sameButBuffer_of_write {i i' : Image} {offset : Nat} {bytes : List UInt8}
    (h : i.write offset bytes = .ok i') : i.SameButBuffer i' := by
  unfold write at h
  split at h
  · rename_i hinside
    cases h
    exact ⟨Bytes.size_overwrite (of_decide_eq_true hinside), rfl, rfl, .inr rfl⟩
  · cases h

theorem StagedFrom.sameButBuffer {i i' : Image} (h : i.StagedFrom i') : i.SameButBuffer i' := by
  induction h with
  | refl => exact ⟨rfl, rfl, rfl, .inl rfl⟩
  | tail _ h ih =>
    obtain ⟨offset, bytes, h⟩ := h
    have hlast := sameButBuffer_of_write h
    refine ⟨hlast.size_eq.trans ih.size_eq, hlast.container_eq.trans ih.container_eq,
      hlast.store_eq.trans ih.store_eq, ?_⟩
    rcases hlast.marked with rfl | hdirty
    · exact ih.marked
    · exact .inr hdirty

/-! ## Requests -/

/-- What may be asked of an image. A transaction may be any, and have come as far as it may: so what
an earlier request has made of it can be asked for next. -/
inductive Request where
  | read (offset length : Nat)
  | write (offset : Nat) (bytes : List UInt8)
  | flush
  | setFault (fault : Option StorageFault)
  | plan (e : Engine) (bodies : List Body)
  | apply (e : Engine) (now : Timestamp) (bodies : List Body)
  | call (t : Transaction) (c : Transaction.Call)
  | restore (p : RestorePoint)

/-- The image after a request, and whether it was granted. -/
def perform (i : Image) : Request → Image × Except Fault Unit
  | .read offset length =>
    match i.read offset length with
    | .error fault => (i, .error (.site fault))
    | .ok _ => (i, .ok ())
  | .write offset bytes =>
    match i.write offset bytes with
    | .error fault => (i, .error (.site fault))
    | .ok i => (i, .ok ())
  | .flush =>
    match i.flush with
    | .error fault => (i, .error (.storage fault))
    | .ok i => (i, .ok ())
  | .setFault fault => (i.setFault fault, .ok ())
  | .plan e bodies => (i, (e.plan i bodies).map fun _ => ())
  | .apply e now bodies => ((e.apply now i bodies).1, (e.apply now i bodies).2.map fun _ => ())
  | .call t c => ((t.perform c i).2.1, (t.perform c i).2.2)
  | .restore p => p.restore i

/-- The image after requests, one after another. -/
def after (i : Image) : List Request → Image
  | [] => i
  | r :: rest => (i.perform r).1.after rest

/-- A run leaves what its commit leaves. -/
theorem handledFrom_apply (i : Image) (e : Engine) (now : Timestamp) (bodies : List Body) :
    i.HandledFrom (e.apply now i bodies).1 := by
  unfold Engine.apply
  split
  · exact .staged .refl
  · unfold Engine.applyReports
    split
    · exact .staged .refl
    · rename_i t _
      have hcommit := t.handledFrom_commit now i
      generalize t.commit now i = done at hcommit ⊢
      obtain ⟨t', i', fault | _⟩ := done <;> exact hcommit

theorem handledFrom_restore (i : Image) (p : RestorePoint) :
    i.HandledFrom (p.restore i).1 := by
  unfold RestorePoint.restore
  split
  · exact .staged .refl
  · exact i.handledFrom_writeAndFlush _

/-- **Whatever is asked of an image, bytes are staged and may then be flushed,** unless it is the
store that is set to refuse or to work. -/
theorem handledFrom_perform (i : Image) (r : Request) :
    i.HandledFrom (i.perform r).1 ∨ ∃ fault, (i.perform r).1 = i.setFault fault := by
  cases r with
  | read offset length =>
    dsimp only [perform]
    split <;> exact .inl (.staged .refl)
  | write offset bytes =>
    dsimp only [perform]
    split
    · exact .inl (.staged .refl)
    · rename_i h
      exact .inl (.staged (.single ⟨offset, bytes, h⟩))
  | flush =>
    dsimp only [perform]
    split
    · exact .inl (.staged .refl)
    · rename_i h
      exact .inl (.flushed .refl h)
  | setFault fault => exact .inr ⟨fault, rfl⟩
  | plan e bodies => exact .inl (.staged .refl)
  | apply e now bodies => exact .inl (i.handledFrom_apply e now bodies)
  | call t c => exact .inl (t.handledFrom_perform c i)
  | restore p => exact .inl (i.handledFrom_restore p)

/-! ## What every request keeps -/

/-- What holds of an image, however much was asked of it, since it was loaded from stored bytes. -/
structure Steady (loaded : ByteArray) (i : Image) : Prop where
  size_eq : i.size = loaded.size
  stored_size_eq : i.store.bytes.size = loaded.size
  /-- The format and the slices are those of the file. -/
  container_eq : Container.detect loaded = .ok i.container
  clean : i.dirty = false → i.buffer = i.store.bytes

/-- What a request does to the store: nothing, or it replaces the bytes and counts that. -/
inductive StoredFrom (i i' : Image) : Prop where
  | kept (hbytes : i'.store.bytes = i.store.bytes)
    (hpersists : i'.store.persists = i.store.persists)
  /-- Bytes were staged, and the buffer that they have left was stored. -/
  | replaced {m : Image} (hstaged : i.StagedFrom m) (hflush : m.flush = .ok i')
    (hbytes : i'.store.bytes = m.buffer) (hpersists : i'.store.persists = i.store.persists + 1)

theorem steady_of_load {s : Store} {i : Image} (h : load s = .ok i) : i.Steady s.bytes := by
  unfold load at h
  split at h
  · cases h
  · rename_i hdetect
    cases h
    exact ⟨rfl, rfl, hdetect, fun _ => rfl⟩

theorem HandledFrom.storedFrom {i i' : Image} (h : i.HandledFrom i') : i.StoredFrom i' := by
  cases h with
  | staged h =>
    have hstore := h.sameButBuffer.store_eq
    exact .kept (congrArg Store.bytes hstore) (congrArg Store.persists hstore)
  | flushed h hflush =>
    obtain ⟨-, rfl⟩ := of_flush hflush
    refine .replaced h hflush rfl ?_
    dsimp only
    rw [h.sameButBuffer.store_eq]

namespace Steady

variable {loaded : ByteArray} {i i' : Image} (hi : i.Steady loaded)
include hi

theorem of_stagedFrom (h : i.StagedFrom i') : i'.Steady loaded := by
  obtain ⟨hsize, hcontainer, hstore, hmarked⟩ := h.sameButBuffer
  refine ⟨hsize.trans hi.size_eq, hstore ▸ hi.stored_size_eq, hcontainer ▸ hi.container_eq,
    fun hclean => ?_⟩
  rcases hmarked with rfl | hdirty
  · exact hi.clean hclean
  · rw [hdirty] at hclean
    cases hclean

theorem of_flush (h : i.flush = .ok i') : i'.Steady loaded := by
  obtain ⟨-, rfl⟩ := Image.of_flush h
  exact ⟨hi.size_eq, hi.size_eq, hi.container_eq, fun _ => rfl⟩

/-- **A request keeps an image steady.** -/
theorem perform (r : Request) : (i.perform r).1.Steady loaded := by
  rcases i.handledFrom_perform r with h | ⟨fault, h⟩
  · cases h with
    | staged h => exact hi.of_stagedFrom h
    | flushed h hflush => exact (hi.of_stagedFrom h).of_flush hflush
  · rw [h]
    exact ⟨hi.size_eq, hi.stored_size_eq, hi.container_eq, hi.clean⟩

/-- **So does any number of requests.** -/
theorem after (rs : List Request) : (i.after rs).Steady loaded := by
  induction rs generalizing i with
  | nil => exact hi
  | cons r rest ih => exact ih (hi.perform r)

end Steady

/-- **However much is asked of an image, it keeps to its file and to its store.** Whatever was asked
since it was loaded: buffer and store have the size of the file, the format and the slices are those
of the file, and an image that is not dirty holds what is stored. Whatever is asked next: a write
that fails changes nothing, and the stored bytes only change when they are counted as persisted, to
the buffer as it then was. -/
theorem steady_after {s : Store} {i : Image} (h : load s = .ok i) (rs : List Request) :
    (i.after rs).Steady s.bytes ∧
      ∀ r, (∀ offset bytes fault, r = .write offset bytes →
          ((i.after rs).perform r).2 = .error fault → ((i.after rs).perform r).1 = i.after rs) ∧
        (i.after rs).StoredFrom ((i.after rs).perform r).1 := by
  refine ⟨(steady_of_load h).after rs, fun r => ⟨?_, ?_⟩⟩
  · rintro offset bytes fault rfl herror
    dsimp only [perform] at herror ⊢
    split at herror
    · rfl
    · cases herror
  · rcases (i.after rs).handledFrom_perform r with h | ⟨fault, h⟩
    · exact h.storedFrom
    · rw [h]
      exact .kept rfl rfl

/-- A run that patches a file, the store set to refuse, another write, and a refused flush. -/
def refusedRun : List Request :=
  [.apply Engine.relapsing ⟨0, 0⟩ [], .setFault (some .disabled), .write 0 [1], .flush]

/-- The refused run has persisted once, and leaves an image that is dirty. -/
theorem steady_after_refusedRun :
    load Engine.relapsingImage.store = .ok Engine.relapsingImage ∧
      (Engine.relapsingImage.after refusedRun).dirty = true ∧
      (Engine.relapsingImage.after refusedRun).store.persists = 1 ∧
      (Engine.relapsingImage.after refusedRun).store.bytes.size = 24 ∧
      (Engine.relapsingImage.after refusedRun).StoredFrom
        ((Engine.relapsingImage.after refusedRun).perform (.restore
          ⟨"1", [.linux], 24, ⟨0, 0⟩, [⟨20, [0xAA, 0]⟩]⟩)).1 := by
  have hload : load Engine.relapsingImage.store = .ok Engine.relapsingImage := rfl
  obtain ⟨hsteady, hnext⟩ := steady_after hload refusedRun
  exact ⟨hload, by decide +kernel, by decide +kernel, hsteady.stored_size_eq, (hnext _).2⟩

end Image
end BinaryPatch
