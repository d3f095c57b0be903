/-
# What authorizes a write

Bytes are compared with what is expected of them when a transaction is validated. A commit comes
later, on an image that may have been written to in between: it compares the size and nothing
else, and writes over every site that was unpatched when it was validated.

| the site of an entry that is written | holds what is expected |
| --- | --- |
| when it is validated | always |
| when it is committed | exactly when no byte that was compared has changed in between |

So the check authorizes the write as long as the image belongs to one transaction from the one call
to the other (`Transaction.commit_authorized_iff`), and no longer
(`Transaction.not_commit_authorized`).
-/

import BinaryPatch.Proofs.Progress

namespace BinaryPatch

/-- Where bytes are held, another buffer of the size holds them exactly when it has the same bytes
there. -/
theorem Bytes.holdsAt_iff_forall_eq {a b : ByteArray} {o : Nat} {w : List UInt8}
    (hsize : a.size = b.size) (h : holdsAt b o w = true) :
    holdsAt a o w = true ↔ ∀ k < w.length, a[o + k]? = b[o + k]? := by
  grind

/-- **Writes that were all staged fit, and are what was staged.** -/
theorem Image.of_writeEach {i j : Image} {ps : List Patch} (h : i.writeEach ps = (j, .ok ())) :
    (∀ p ∈ ps, p.Fits i.size) ∧ j = i.staged ps := by
  have hfit : ∀ p ∈ ps, p.Fits i.size := by
    induction ps generalizing i with
    | nil => exact nofun
    | cons p rest ih =>
      unfold writeEach at h
      by_cases hp : p.Fits i.size
      · rw [write_eq hp] at h
        have hrest := ih h
        intro q hq
        rcases List.mem_cons.1 hq with rfl | hq
        · exact hp
        · have hin := hrest q hq
          simpa [size, show p.offset + p.bytes.length ≤ i.buffer.size from hp] using hin
      · have hrefused : ¬ i.inside p.offset p.bytes.length = true :=
          fun hin => hp (of_decide_eq_true hin)
        unfold write at h
        rw [if_neg hrefused] at h
        cases h
  refine ⟨hfit, ?_⟩
  rw [writeEach_eq hfit] at h
  exact (Prod.mk.inj h).1.symm

/-- Bytes that no patch touches are held as before. -/
theorem Bytes.holdsAt_overwriteAll_of_apart {b : ByteArray} {ps : List Patch}
    (hfit : ∀ p ∈ ps, p.Fits b.size) {q : Patch} (h : ∀ p ∈ ps, p.Apart q) :
    holdsAt (overwriteAll b ps) q.offset q.bytes = holdsAt b q.offset q.bytes := by
  refine holdsAt_congr (by grind) fun k hlo hhi => ?_
  have hcovers : q.Covers k := ⟨hlo, hhi⟩
  exact getElem?_overwriteAll_of_not_covers hfit fun p hp => (h p hp).symm.not_covers hcovers

namespace Transaction

/-- **What a commit has done when it succeeds**, on any image of the size that was validated. -/
theorem committed_of_commit {t t' t'' : Transaction} {i j j' : Image} {now : Timestamp}
    (hvalidate : t.validate i = (t', .ok ())) (hsize : j.size = i.size)
    (hcommit : t'.commit now j = (t'', j', .ok ())) :
    t''.entries = t'.entries ∧ t'.Committed j j' := by
  rw [commit_eq_of_validate now hvalidate hsize] at hcommit
  by_cases hnil : t'.patches = []
  · rw [if_pos hnil] at hcommit
    cases hcommit
    exact ⟨rfl, .inl ⟨hnil, rfl⟩⟩
  · rw [if_neg hnil] at hcommit
    cases hfault : j.store.fault with
    | none =>
      rw [hfault] at hcommit
      cases hcommit
      exact ⟨rfl, .inr ⟨hnil, rfl⟩⟩
    | some fault =>
      rw [hfault] at hcommit
      cases hcommit

/-- **A commit writes over what was expected when it was validated.** Whatever was staged in
between, a site that is written held the expected bytes at validation. It holds them at the commit
exactly when none of these bytes has changed since, as is the case when nothing was staged over
them. -/
theorem commit_authorized_iff {t t' t'' : Transaction} {i j j' : Image} {ps : List Patch}
    {now : Timestamp} (hvalidate : t.validate i = (t', .ok ()))
    (hstaged : i.writeEach ps = (j, .ok ())) (hcommit : t'.commit now j = (t'', j', .ok ())) :
    t'.Committed j j' ∧ ∀ x ∈ t''.entries, x.needsWrite = true →
      Bytes.holdsAt i.buffer x.offset x.expected = true ∧
        (Bytes.holdsAt j.buffer x.offset x.expected = true ↔
          ∀ k < x.expected.length, j.buffer[x.offset + k]? = i.buffer[x.offset + k]?) ∧
        ((∀ p ∈ ps, p.Apart ⟨x.offset, x.expected⟩) →
          Bytes.holdsAt j.buffer x.offset x.expected = true) := by
  obtain ⟨hfit, rfl⟩ := Image.of_writeEach hstaged
  have hsize : (i.staged ps).size = i.size := by grind
  obtain ⟨hentries, hcommitted⟩ := committed_of_commit hvalidate hsize hcommit
  obtain ⟨-, -, -, hinspected⟩ := inspected_of_validate hvalidate
  refine ⟨hcommitted, fun x hx hwrite => ?_⟩
  rw [hentries] at hx
  have hexpected := (hinspected x hx).holdsAt_expected hwrite
  refine ⟨hexpected, Bytes.holdsAt_iff_forall_eq hsize hexpected, fun hapart => ?_⟩
  have hsame := Bytes.holdsAt_overwriteAll_of_apart hfit hapart
  exact hsame.trans hexpected

/-! ### Writes in between -/

theorem validate_mixed :
    mixed.validate mixedImage = ((mixed.validate mixedImage).1, .ok ()) :=
  Prod.ext rfl (by decide +kernel)

/-- The entry of the first target once it has been validated. -/
def mixedEntry : Entry :=
  ⟨"A", .linux, 20, [0xAA], [0xBB, 0xCC], some [0xAA, 0], some .unpatched⟩

/-- A write behind the expected byte of the first target. -/
def beside : List Patch := [⟨21, [0xCC]⟩]

/-- A write over the expected byte. -/
def intrusion : List Patch := [⟨20, [0xCC]⟩]

/-- The transaction may be committed after either. -/
theorem commit_staged {ps : List Patch} (h : ps = beside ∨ ps = intrusion) :
    mixedImage.writeEach ps = (mixedImage.staged ps, .ok ()) ∧
      ∃ t'' j', (mixed.validate mixedImage).1.commit ⟨0, 0⟩ (mixedImage.staged ps) =
        (t'', j', .ok ()) ∧ mixedEntry ∈ t''.entries := by
  rcases h with rfl | rfl
  · refine ⟨Image.writeEach_eq (by decide), _, _, Prod.ext rfl (Prod.ext rfl ?_), ?_⟩
    · decide +kernel
    · decide +kernel
  · refine ⟨Image.writeEach_eq (by decide), _, _, Prod.ext rfl (Prod.ext rfl ?_), ?_⟩
    · decide +kernel
    · decide +kernel

/-- **A commit may write over bytes that nobody expected**, if they were staged after the
transaction had been validated. -/
theorem not_commit_authorized :
    ¬ ∀ (reports : List Report) (c : Catalog) (bodies : List Body) (t t' t'' : Transaction)
      (i j j' : Image) (ps : List Patch) (now : Timestamp), build reports c bodies = .ok t →
        t.validate i = (t', .ok ()) → i.writeEach ps = (j, .ok ()) →
          t'.commit now j = (t'', j', .ok ()) → ∀ x ∈ t''.entries, x.needsWrite = true →
            Bytes.holdsAt j.buffer x.offset x.expected = true := by
  intro hall
  obtain ⟨hstaged, t'', j', hcommit, hmem⟩ := commit_staged (.inr rfl)
  have hheld := hall _ _ _ _ _ _ _ _ _ _ _ build_mixed validate_mixed hstaged hcommit
    mixedEntry hmem rfl
  have hother : Bytes.holdsAt (mixedImage.staged intrusion).buffer 20 [0xAA] = false := by
    decide +kernel
  exact Bool.false_ne_true (hother.symm.trans hheld)

/-- A write behind the expected byte leaves the check good, by `commit_authorized_iff`. The commit
overwrites what was staged there. -/
theorem commit_beside_authorized :
    ∃ t'' j', (mixed.validate mixedImage).1.commit ⟨0, 0⟩ (mixedImage.staged beside) =
        (t'', j', .ok ()) ∧
      mixedEntry ∈ t''.entries ∧
        Bytes.holdsAt (mixedImage.staged beside).buffer 20 [0xAA] = true := by
  obtain ⟨hstaged, t'', j', hcommit, hmem⟩ := commit_staged (.inl rfl)
  obtain ⟨-, hsites⟩ := commit_authorized_iff validate_mixed hstaged hcommit
  obtain ⟨-, -, hapart⟩ := hsites mixedEntry hmem rfl
  exact ⟨t'', j', hcommit, hmem, hapart (by decide)⟩

end Transaction
end BinaryPatch
