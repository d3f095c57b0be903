/-
# Staging patches and undoing them

Patches are written over a buffer one after another. A place keeps its byte unless a patch
covers it, and what the patches leave there does not depend on what stood there before. So the
bytes captured from under the patches, written back in any state of those places, give the
buffer they were captured from (`overwriteAll_captured`), whether or not patches overlap.

An image stages patches by writing them over its buffer; nothing else of it changes but that it
becomes dirty (`Image.writeAll_eq`). As long as it is not dirty it holds what its store holds
(`Image.Reachable.store_bytes_eq`).
-/

import BinaryPatch.Proofs.Bytes
import BinaryPatch.Transaction.Commit
import Mathlib.Logic.Relation

namespace BinaryPatch
namespace Patch

/-- The patch writes over the place. -/
@[grind =]
def Covers (p : Patch) (k : Nat) : Prop := p.offset ≤ k ∧ k < p.offset + p.bytes.length

/-- The patch lies inside a buffer of the given size. -/
@[grind =]
def Fits (p : Patch) (size : Nat) : Prop := p.offset + p.bytes.length ≤ size

/-- The patches share no place. -/
@[grind =]
def Apart (p q : Patch) : Prop :=
  p.offset + p.bytes.length ≤ q.offset ∨ q.offset + q.bytes.length ≤ p.offset

instance (p : Patch) (k : Nat) : Decidable (p.Covers k) := inferInstanceAs (Decidable (_ ∧ _))

instance (p : Patch) (size : Nat) : Decidable (p.Fits size) := inferInstanceAs (Decidable (_ ≤ _))

instance (p q : Patch) : Decidable (p.Apart q) := inferInstanceAs (Decidable (_ ∨ _))

theorem Apart.symm {p q : Patch} (h : p.Apart q) : q.Apart p := Or.symm h

theorem Apart.not_covers {p q : Patch} (h : p.Apart q) {k : Nat} (hk : p.Covers k) :
    ¬ q.Covers k := by
  grind

end Patch

namespace Bytes

/-- The buffer with patches written over it one after another. -/
def overwriteAll (b : ByteArray) : List Patch → ByteArray
  | [] => b
  | p :: rest => overwriteAll (overwrite b p.offset p.bytes) rest

/-- The bytes that stand under patches. -/
def captured (b : ByteArray) (ps : List Patch) : List Patch :=
  ps.map fun p => ⟨p.offset, window b p.offset p.bytes.length⟩

@[simp]
theorem overwriteAll_nil (b : ByteArray) : overwriteAll b [] = b := rfl

@[simp, grind =]
theorem overwriteAll_cons (b : ByteArray) (p : Patch) (rest : List Patch) :
    overwriteAll b (p :: rest) = overwriteAll (overwrite b p.offset p.bytes) rest := rfl

/-- Whatever fits into a buffer fits into it once a patch is written. -/
theorem fits_overwrite {b : ByteArray} {p : Patch} {rest : List Patch}
    (h : ∀ q ∈ p :: rest, q.Fits b.size) :
    ∀ q ∈ rest, q.Fits (overwrite b p.offset p.bytes).size := by
  have hp := h p List.mem_cons_self
  grind

@[simp, grind =]
theorem size_overwriteAll {b : ByteArray} {ps : List Patch} (h : ∀ p ∈ ps, p.Fits b.size) :
    (overwriteAll b ps).size = b.size := by
  induction ps generalizing b with
  | nil => rfl
  | cons p rest ih =>
    have hp := h p List.mem_cons_self
    rw [overwriteAll_cons, ih (fits_overwrite h)]
    grind

/-- **A place that no patch covers keeps its byte.** -/
theorem getElem?_overwriteAll_of_not_covers {b : ByteArray} {ps : List Patch} {k : Nat}
    (hfit : ∀ p ∈ ps, p.Fits b.size) (h : ∀ p ∈ ps, ¬ p.Covers k) :
    (overwriteAll b ps)[k]? = b[k]? := by
  induction ps generalizing b with
  | nil => rfl
  | cons p rest ih =>
    have hp := hfit p List.mem_cons_self
    have hk := h p List.mem_cons_self
    rw [overwriteAll_cons, ih (fits_overwrite hfit) fun q hq => h q (List.mem_cons_of_mem p hq)]
    grind

/-- **What patches leave at a place they cover does not depend on what stood there.** -/
theorem getElem?_overwriteAll_congr {a b : ByteArray} {ps : List Patch} {k : Nat}
    (hsize : a.size = b.size) (hfit : ∀ p ∈ ps, p.Fits b.size)
    (h : (∃ p ∈ ps, p.Covers k) ∨ a[k]? = b[k]?) :
    (overwriteAll a ps)[k]? = (overwriteAll b ps)[k]? := by
  induction ps generalizing a b with
  | nil => exact h.resolve_left (by simp)
  | cons p rest ih =>
    have hp := hfit p List.mem_cons_self
    refine ih (by grind) (fits_overwrite hfit) ?_
    by_cases hk : p.Covers k
    · right
      grind
    · rcases h with ⟨q, hq, hqk⟩ | h
      · rcases List.mem_cons.1 hq with rfl | hq
        · exact absurd hqk hk
        · exact .inl ⟨q, hq, hqk⟩
      · right
        grind

/-- **Patches that lie apart are all held once they are written.** -/
theorem holdsAt_overwriteAll {b : ByteArray} {ps : List Patch} (hfit : ∀ p ∈ ps, p.Fits b.size)
    (hapart : ps.Pairwise Patch.Apart) {p : Patch} (hp : p ∈ ps) :
    holdsAt (overwriteAll b ps) p.offset p.bytes = true := by
  induction ps generalizing b with
  | nil => simp at hp
  | cons q rest ih =>
    obtain ⟨hq, hrest⟩ := List.pairwise_cons.1 hapart
    have hfitq := hfit q List.mem_cons_self
    have hfits := fits_overwrite hfit
    rcases List.mem_cons.1 hp with rfl | hp
    · -- the patch is written first, and no later one covers its places
      have hkept : ∀ k, p.Covers k → (overwriteAll (overwrite b p.offset p.bytes) rest)[k]? =
          (overwrite b p.offset p.bytes)[k]? := fun k hk =>
        getElem?_overwriteAll_of_not_covers hfits fun r hr => (hq r hr).not_covers hk
      rw [overwriteAll_cons, holdsAt_iff, size_overwriteAll hfits]
      grind
    · exact ih hfits hrest hp

theorem overwriteAll_of_holdsAt {b : ByteArray} {ps : List Patch}
    (h : ∀ p ∈ ps, holdsAt b p.offset p.bytes = true) : overwriteAll b ps = b := by
  induction ps with
  | nil => rfl
  | cons p rest ih =>
    rw [overwriteAll_cons, overwrite_of_holdsAt (h p List.mem_cons_self),
      ih fun q hq => h q (List.mem_cons_of_mem p hq)]

/-! ## Captured bytes -/

theorem mem_captured {b : ByteArray} {ps : List Patch} {c : Patch} :
    c ∈ captured b ps ↔ ∃ p ∈ ps, ⟨p.offset, window b p.offset p.bytes.length⟩ = c :=
  List.mem_map

/-- Captured bytes stand where they were captured. -/
theorem holdsAt_captured {b : ByteArray} {ps : List Patch} (hfit : ∀ p ∈ ps, p.Fits b.size)
    {c : Patch} (hc : c ∈ captured b ps) : holdsAt b c.offset c.bytes = true := by
  obtain ⟨p, hp, rfl⟩ := mem_captured.1 hc
  have hp := hfit p hp
  grind

theorem fits_captured {b : ByteArray} {ps : List Patch} (hfit : ∀ p ∈ ps, p.Fits b.size)
    {c : Patch} (hc : c ∈ captured b ps) : c.Fits b.size :=
  fits_of_holdsAt (holdsAt_captured hfit hc)

/-- **Writing captured bytes back gives the buffer they were captured from,** in every buffer
that agrees with it at the places that no patch covers. -/
theorem overwriteAll_captured {a b : ByteArray} {ps : List Patch}
    (hfit : ∀ p ∈ ps, p.Fits b.size) (hsize : a.size = b.size)
    (h : ∀ k, (∀ p ∈ ps, ¬ p.Covers k) → a[k]? = b[k]?) :
    overwriteAll a (captured b ps) = b := by
  have hback : overwriteAll b (captured b ps) = b :=
    overwriteAll_of_holdsAt fun _ hc => holdsAt_captured hfit hc
  apply ext_getElem?
  intro k
  refine (getElem?_overwriteAll_congr hsize (fun _ hc => fits_captured hfit hc) ?_).trans
    (by rw [hback])
  by_cases hk : ∃ p ∈ ps, p.Covers k
  · obtain ⟨p, hp, hpk⟩ := hk
    refine .inl ⟨_, mem_captured.2 ⟨p, hp, rfl⟩, ?_⟩
    have hp := hfit p hp
    grind
  · exact .inr (h k fun p hp hpk => hk ⟨p, hp, hpk⟩)

end Bytes

namespace Image

/-- The image with patches staged. -/
def staged (i : Image) (ps : List Patch) : Image :=
  { i with buffer := Bytes.overwriteAll i.buffer ps, dirty := i.dirty || !ps.isEmpty }

theorem read_eq_ok {i : Image} {offset length : Nat} (h : offset + length ≤ i.size) :
    i.read offset length = .ok (Bytes.window i.buffer offset length) :=
  if_pos (decide_eq_true h)

theorem read_eq_error {i : Image} {offset length : Nat} (h : ¬ offset + length ≤ i.size) :
    i.read offset length = .error (.outOfRange offset length i.size) :=
  if_neg fun hin => h (of_decide_eq_true hin)

theorem write_eq {i : Image} {p : Patch} (h : p.Fits i.size) :
    i.write p.offset p.bytes =
      .ok { i with buffer := Bytes.overwrite i.buffer p.offset p.bytes, dirty := true } :=
  if_pos (decide_eq_true h)

theorem writeEach_eq {i : Image} {ps : List Patch} (h : ∀ p ∈ ps, p.Fits i.size) :
    i.writeEach ps = (i.staged ps, .ok ()) := by
  induction ps generalizing i with
  | nil => simp [writeEach, staged]
  | cons p rest ih =>
    have hp : p.Fits i.size := h p List.mem_cons_self
    rw [writeEach, write_eq hp]
    dsimp only
    rw [ih]
    · simp [staged]
    · exact Bytes.fits_overwrite h

theorem misfit?_eq_none_iff {i : Image} {ps : List Patch} :
    i.misfit? ps = none ↔ ∀ p ∈ ps, p.Fits i.size := by
  unfold misfit?
  rw [List.findSome?_eq_none_iff]
  refine forall₂_congr fun p _ => ?_
  have hiff : i.inside p.offset p.bytes.length = true ↔ p.Fits i.size := decide_eq_true_iff
  by_cases hp : p.Fits i.size
  · rw [if_pos (hiff.2 hp)]
    exact iff_of_true rfl hp
  · rw [if_neg fun h => hp (hiff.1 h)]
    exact iff_of_false (by simp) hp

/-- **Patches that fit are all staged.** -/
theorem writeAll_eq {i : Image} {ps : List Patch} (h : ∀ p ∈ ps, p.Fits i.size) :
    i.writeAll ps = (i.staged ps, .ok ()) := by
  rw [writeAll, misfit?_eq_none_iff.2 h]
  exact writeEach_eq h

@[simp, grind =]
theorem size_staged {i : Image} {ps : List Patch} (h : ∀ p ∈ ps, p.Fits i.size) :
    (i.staged ps).size = i.size := Bytes.size_overwriteAll h

/-- **Captured bytes undo what was staged over them:** of the image only the mark of a write
remains. -/
theorem writeAll_captured {i : Image} {ps : List Patch} (h : ∀ p ∈ ps, p.Fits i.size)
    (hne : ps ≠ []) :
    (i.staged ps).writeAll (Bytes.captured i.buffer ps) = ({ i with dirty := true }, .ok ()) := by
  have hfit : ∀ c ∈ Bytes.captured i.buffer ps, c.Fits (i.staged ps).size := fun c hc => by
    have hin := Bytes.fits_captured h hc
    grind
  rw [writeAll_eq hfit]
  have hbuffer : Bytes.overwriteAll (i.staged ps).buffer (Bytes.captured i.buffer ps) = i.buffer :=
    Bytes.overwriteAll_captured h (Bytes.size_overwriteAll h) fun _ hk =>
      Bytes.getElem?_overwriteAll_of_not_covers h hk
  have hdirty : (i.staged ps).dirty = true := by simp [staged, hne]
  unfold staged at hbuffer hdirty ⊢
  dsimp only at hbuffer hdirty ⊢
  rw [hbuffer, hdirty, Bool.true_or]

theorem flush_eq_ok {i : Image} (h : i.store.fault = none) :
    i.flush = .ok
      { i with
        store := { i.store with bytes := i.buffer, persists := i.store.persists + 1 }
        dirty := false } := by
  simp only [flush, Store.persist, h]

theorem flush_eq_error {i : Image} {fault : StorageFault} (h : i.store.fault = some fault) :
    i.flush = .error fault := by
  simp only [flush, Store.persist, h]

/-- What is flushed is stored. -/
theorem of_flush {i i' : Image} (h : i.flush = .ok i') :
    i.store.fault = none ∧
      i' = { i with
        store := { i.store with bytes := i.buffer, persists := i.store.persists + 1 }
        dirty := false } := by
  cases hfault : i.store.fault with
  | none =>
    rw [flush_eq_ok hfault] at h
    exact ⟨rfl, (Except.ok.inj h).symm⟩
  | some fault =>
    rw [flush_eq_error hfault] at h
    cases h

/-! ### Images that come about -/

/-- An image that can come about: it was loaded, and since then bytes were staged, the buffer was
flushed, and the store was set to refuse or to work. -/
inductive Reachable : Image → Prop where
  | load {s : Store} {i : Image} (h : load s = .ok i) : Reachable i
  | write {i i' : Image} {offset : Nat} {bytes : List UInt8} (hi : Reachable i)
      (h : i.write offset bytes = .ok i') : Reachable i'
  | flush {i i' : Image} (hi : Reachable i) (h : i.flush = .ok i') : Reachable i'
  | setFault {i : Image} (hi : Reachable i) (fault : Option StorageFault) :
      Reachable (i.setFault fault)

/-- **An image that is not dirty holds what its store holds.** -/
theorem Reachable.store_bytes_eq {i : Image} (hi : i.Reachable) (hclean : i.dirty = false) :
    i.store.bytes = i.buffer := by
  induction hi with
  | load h =>
    unfold Image.load at h
    split at h
    · cases h
    · cases h
      rfl
  | write _ h _ =>
    unfold Image.write at h
    split at h
    · cases h
      cases hclean
    · cases h
  | flush _ h _ =>
    obtain ⟨-, rfl⟩ := of_flush h
    rfl
  | setFault _ fault ih => exact ih hclean

/-! ### What a call leaves of an image -/

/-- Bytes were staged, any number of times. -/
def StagedFrom : Image → Image → Prop :=
  Relation.ReflTransGen fun i i' => ∃ offset bytes, i.write offset bytes = .ok i'

/-- What a call may leave of an image: bytes were staged, and in the end the buffer may have been
flushed. -/
inductive HandledFrom (i : Image) : Image → Prop where
  | staged {i' : Image} (h : i.StagedFrom i') : HandledFrom i i'
  | flushed {m i' : Image} (h : i.StagedFrom m) (hflush : m.flush = .ok i') : HandledFrom i i'

theorem stagedFrom_writeEach (i : Image) (ps : List Patch) :
    i.StagedFrom (i.writeEach ps).1 := by
  induction ps generalizing i with
  | nil => exact .refl
  | cons p rest ih =>
    unfold writeEach
    split
    · exact .refl
    · rename_i h
      exact .head ⟨_, _, h⟩ (ih _)

theorem stagedFrom_writeAll (i : Image) (ps : List Patch) : i.StagedFrom (i.writeAll ps).1 := by
  unfold writeAll
  split
  · exact .refl
  · exact i.stagedFrom_writeEach ps

/-- An image that is flushed once bytes were staged, unless staging has failed. -/
theorem handledFrom_flush {i : Image} (staged : Image × Except SiteFault Unit) :
    i.StagedFrom staged.1 →
      i.HandledFrom
        (match staged with
        | (i, .error fault) => (i, .error (.site fault))
        | (i, .ok ()) =>
          match i.flush with
          | .error fault => (i, .error (.storage fault))
          | .ok i => (i, .ok ()) : Image × Except Fault Unit).1 := by
  intro h
  obtain ⟨i', fault | _⟩ := staged
  · exact .staged h
  · dsimp only
    split
    · exact .staged h
    · rename_i hflush
      exact .flushed h hflush

theorem handledFrom_writeAndFlush (i : Image) (ps : List Patch) :
    i.HandledFrom (i.writeAndFlush ps).1 :=
  handledFrom_flush _ (i.stagedFrom_writeAll ps)

theorem handledFrom_stageAndFlush (i : Image) (ps : List Patch) :
    i.HandledFrom (Transaction.stageAndFlush i ps).1 :=
  handledFrom_flush _ (i.stagedFrom_writeEach ps)

/-- What cannot be flushed is only staged. -/
theorem stagedFrom_of_stageAndFlush_error {i i' : Image} {ps : List Patch} {fault : Fault}
    (h : Transaction.stageAndFlush i ps = (i', .error fault)) : i.StagedFrom i' := by
  unfold Transaction.stageAndFlush at h
  have hstaged := i.stagedFrom_writeEach ps
  generalize i.writeEach ps = staged at h hstaged
  obtain ⟨m, fault' | _⟩ := staged
  · cases h
    exact hstaged
  · dsimp only at h
    split at h
    · cases h
      exact hstaged
    · cases h

theorem Reachable.of_stagedFrom {i i' : Image} (hi : i.Reachable) (h : i.StagedFrom i') :
    i'.Reachable := by
  induction h with
  | refl => exact hi
  | tail _ h ih =>
    obtain ⟨offset, bytes, h⟩ := h
    exact .write ih h

/-- **What a call leaves of an image that can come about can come about.** -/
theorem Reachable.of_handledFrom {i i' : Image} (hi : i.Reachable) (h : i.HandledFrom i') :
    i'.Reachable := by
  cases h with
  | staged h => exact hi.of_stagedFrom h
  | flushed h hflush => exact .flush (hi.of_stagedFrom h) hflush

end Image
end BinaryPatch
