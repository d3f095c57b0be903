/-
# Patching a second time

A transaction that is built again after a commit has nothing left to do. Its entries lie apart, so
the commit has left the new bytes of every site behind, whether it wrote them or found them there
(`Ready.holdsAt_overwriteAll`), and a site that holds its new bytes is found already applied, however
long the expected bytes are (`validate_of_held`). Of such entries a commit writes none and persists
nothing (`commit_of_alreadyApplied`).

This is about one list of reports. A second run looks for the targets again, and may find them
elsewhere.
-/

import BinaryPatch.Proofs.Authorization

namespace BinaryPatch
namespace Transaction

/-! ## Where the new bytes stand -/

/-- The entry of a site that holds its new bytes, once it has been validated. -/
def found (i : Image) (x : Entry) : Entry :=
  { x with
    observed := some (Bytes.window i.buffer x.offset x.length)
    state := some .alreadyApplied }

/-- **A validation finds every site already applied if its new bytes stand there.** -/
theorem validate_of_held {t : Transaction} {i : Image}
    (hp : t.progress = .pending ∨ t.progress = .validated)
    (hslices : ∀ p ∈ t.platforms, i.hasSlice p = true)
    (hheld : ∀ x ∈ t.entries, x.offset + x.length ≤ i.size ∧
      Bytes.holdsAt i.buffer x.offset x.newBytes = true) :
    t.validate i =
      ({ t with entries := t.entries.map (found i), fileLength := i.size, progress := .validated },
        .ok ()) := by
  have hfound : ∀ x ∈ t.entries, inspectEntry i x = (found i x, none) := by
    intro x hx
    obtain ⟨hfit, hnew⟩ := hheld x hx
    rw [inspectEntry_eq, if_pos hfit]
    dsimp only
    rw [if_pos hnew]
    rfl
  have hfaults : t.entries.filterMap (fun x => (inspectEntry i x).2) = [] :=
    List.filterMap_eq_nil_iff.2 fun x hx => by rw [hfound x hx]
  have hentries : t.entries.map (fun x => (inspectEntry i x).1) = t.entries.map (found i) :=
    List.map_congr_left fun x hx => by rw [hfound x hx]
  rw [validate_eq hp hslices, hfaults, hentries]

/-- **A commit of sites that are patched already changes nothing.** -/
theorem commit_of_alreadyApplied {t : Transaction} {i : Image} (now : Timestamp)
    (hp : t.progress = .validated) (hlength : i.size = t.fileLength)
    (hstate : ∀ x ∈ t.entries, x.state = some .alreadyApplied) :
    t.commit now i = (t.applied now [], i, .ok ()) := by
  have hnil : t.patches = [] := by
    refine List.eq_nil_iff_forall_not_mem.2 fun p hmem => ?_
    obtain ⟨x, hx, hwrite, -⟩ := mem_patches.1 hmem
    rw [Entry.needsWrite, hstate x hx] at hwrite
    cases hwrite
  rw [commit_eq now hp hlength (by simp [hnil]), if_pos hnil]

/-! ## A second transaction -/

theorem Committed.container_eq {t : Transaction} {i i' : Image} (h : t.Committed i i') :
    i'.container = i.container := by
  rcases h with ⟨-, rfl⟩ | ⟨-, rfl⟩ <;> rfl

/-- **After a commit the sites of a transaction hold their new bytes,** on an image of the same size
with the same slices. -/
theorem held_of_commit {t t' t'' : Transaction} {i i' : Image} {now : Timestamp}
    (hapart : t.entries.Pairwise Entry.Apart) (hvalidate : t.validate i = (t', .ok ()))
    (hcommit : t'.commit now i = (t'', i', .ok ())) :
    i'.container = i.container ∧
      ∀ x ∈ t.entries, x.offset + x.length ≤ i'.size ∧
        Bytes.holdsAt i'.buffer x.offset x.newBytes = true := by
  obtain ⟨hready, hentries⟩ := ready_of_validate hvalidate hapart
  obtain ⟨-, hcommitted⟩ := committed_of_commit hvalidate rfl hcommit
  have hbuffer := hcommitted.buffer_eq
  have hfits := hready.fits
  have hsize : i'.size = i.size := by grind
  refine ⟨hcommitted.container_eq, fun x hx => ?_⟩
  have hx' : (inspectEntry i x).1 ∈ t'.entries := hentries ▸ List.mem_map_of_mem hx
  have hfit := (hready.inspected _ hx').fits
  have hheld := hready.holdsAt_overwriteAll hx'
  rw [← hbuffer] at hheld
  obtain ⟨observed, state, heq⟩ := inspectEntry_fst i x
  rw [heq] at hfit hheld
  exact ⟨hsize ▸ hfit, hheld⟩

/-- **Patching twice is patching once.** After a transaction has been validated and committed, a
second one that is built from the same reports finds all of its sites already applied, and its
commit succeeds and leaves the image as it is. -/
theorem commit_idempotent {reports : List Report} {c : Catalog} {bodies : List Body}
    {t t' t'' : Transaction} {i i' : Image} {now : Timestamp}
    (hbuild : build reports c bodies = .ok t) (hvalidate : t.validate i = (t', .ok ()))
    (hcommit : t'.commit now i = (t'', i', .ok ())) :
    ∃ u u', build reports c bodies = .ok u ∧ u.validate i' = (u', .ok ()) ∧
      u'.entries = u.entries.map (found i') ∧
      ∀ now', ∃ u'', u'.commit now' i' = (u'', i', .ok ()) ∧ u''.progress = .applied := by
  obtain ⟨hpending, hapart, -, -⟩ := build_eq_ok hbuild
  obtain ⟨hcontainer, hheld⟩ := held_of_commit hapart hvalidate hcommit
  have hslices : ∀ p ∈ t.platforms, i'.hasSlice p = true := by
    unfold Image.hasSlice Image.slice? Image.slices
    rw [hcontainer]
    exact hasSlice_of_validate hvalidate
  refine ⟨t, _, hbuild, validate_of_held (.inl hpending) hslices hheld, rfl, fun now' => ?_⟩
  have hstate : ∀ x ∈ t.entries.map (found i'), x.state = some .alreadyApplied :=
    List.forall_mem_map.2 fun x _ => rfl
  exact ⟨_, commit_of_alreadyApplied now' rfl rfl hstate, rfl⟩

/-- The first commit writes one of two sites, and the second transaction is a no-op, by
`commit_idempotent`. -/
theorem commit_idempotent_mixed :
    ∃ t'' i', (mixed.validate mixedImage).1.commit ⟨0, 0⟩ mixedImage = (t'', i', .ok ()) ∧
      i'.store.persists = 1 ∧ ∃ u', mixed.validate i' = (u', .ok ()) ∧
        u'.entries = mixed.entries.map (found i') ∧
        ∀ now', ∃ u'', u'.commit now' i' = (u'', i', .ok ()) ∧ u''.progress = .applied := by
  have hcommit : (mixed.validate mixedImage).1.commit ⟨0, 0⟩ mixedImage = (_, _, .ok ()) :=
    Prod.ext rfl (Prod.ext rfl (by decide +kernel))
  obtain ⟨u, u', hbuild, h⟩ := commit_idempotent build_mixed validate_mixed hcommit
  obtain rfl : mixed = u := Except.ok.inj (build_mixed.symm.trans hbuild)
  exact ⟨_, _, hcommit, by decide +kernel, u', h⟩

end Transaction
end BinaryPatch
