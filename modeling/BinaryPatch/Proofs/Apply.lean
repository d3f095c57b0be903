/-
# Applying a catalog to an image

A run that fails leaves the buffer and the store of the image as they were. A run that succeeds
has written the new bytes of every site that did not hold them yet, nothing else, and has
persisted the buffer once if there was anything to write (`apply_allOrNothing`).

Of a second run on the same image more might be expected: that it finds every site where the
first run has left it, and writes nothing. It need not. The search for a target goes by the
bytes that stand at its site before it is patched, so new bytes that contain the expected ones
can be taken for an unpatched site at another place. `reapply_unchanged_iff` says when the second
run changes nothing: exactly when it fails, or finds no target at a place, other than those of
the first run, where the expected bytes stand and the new ones do not.
-/

import BinaryPatch.Engine
import BinaryPatch.Proofs.Transaction

namespace BinaryPatch

/-- The run has not patched the target of an entry at the place of the entry. -/
def Outcome.Elsewhere (o : Outcome) (x : Entry) : Prop :=
  ∀ y ∈ o.transaction.entries, y.targetId = x.targetId → y.platform = x.platform →
    y.offset ≠ x.offset

namespace Engine

/-! ## One run -/

/-- What a successful run has done to an image. -/
structure Patched (e : Engine) (before after : Image) (entries : List Entry) : Prop where
  size_eq : after.size = before.size
  /-- The new bytes of every site stand there. -/
  held : ∀ x ∈ entries, Bytes.holdsAt after.buffer x.offset x.newBytes = true
  /-- No other byte has changed. -/
  frame : ∀ k : Nat, (∀ x ∈ entries, ¬ x.patch.Covers k) → after.buffer[k]? = before.buffer[k]?
  /-- What a site was expected to hold is what the catalog says. -/
  expected : ∀ x ∈ entries, ∃ v, e.catalog.variant? x.targetId x.platform = some v ∧
    x.expected = v.expected
  /-- A site that was overwritten held the expected bytes, and not the new ones. -/
  overwritten : ∀ x ∈ entries, x.needsWrite = true →
    Bytes.holdsAt before.buffer x.offset x.expected = true ∧
      Bytes.holdsAt before.buffer x.offset x.newBytes = false
  /-- Any other site held its new bytes already. -/
  kept : ∀ x ∈ entries, x.needsWrite = false →
    Bytes.holdsAt before.buffer x.offset x.newBytes = true
  /-- The buffer was persisted once if any site was overwritten, and otherwise not at all. -/
  stored :
    (∃ x ∈ entries, x.needsWrite = true) ∧ after.store.bytes = after.buffer ∧
        after.store.persists = before.store.persists + 1 ∨
      (∀ x ∈ entries, x.needsWrite = false) ∧ after.buffer = before.buffer ∧
        after.store = before.store

/-- A prepared transaction is ready, and its entries are from the catalog, with one for every
verdict of the reports. -/
theorem ready_of_prepare {e : Engine} {i : Image} {reports : List Report} {bodies : List Body}
    {t : Transaction} (h : e.prepare i reports bodies = .ok t) :
    t.Ready i ∧ (∀ x ∈ t.entries, x.FromCatalog e.catalog bodies) ∧
      ∀ r ∈ reports, r.CoveredBy t.entries := by
  unfold prepare at h
  split at h
  · cases h
  · rename_i built hbuild
    obtain ⟨-, hapart, hcatalog, hcovered⟩ := Transaction.build_eq_ok hbuild
    split at h
    · cases h
    · rename_i hvalidate
      cases h
      obtain ⟨hready, hentries⟩ := Transaction.ready_of_validate hvalidate hapart
      rw [hentries]
      refine ⟨hready, fun x' hx' => ?_, fun r hr v hv => ?_⟩
      · obtain ⟨x, hx, rfl⟩ := List.mem_map.1 hx'
        obtain ⟨observed, state, heq⟩ := Transaction.inspectEntry_fst i x
        rw [heq]
        exact hcatalog x hx
      · obtain ⟨site, hsite, x, hx, hat⟩ := hcovered r hr v hv
        obtain ⟨observed, state, heq⟩ := Transaction.inspectEntry_fst i x
        refine ⟨site, hsite, _, List.mem_map_of_mem hx, ?_⟩
        rw [heq]
        exact hat

/-- By reports that are already there, a run either fails, with nothing but the mark of a write left
on the image, or commits a transaction that is ready, and keeps the bytes that stood under its
patches. -/
theorem applyReports_cases (e : Engine) (now : Timestamp) (i : Image) (reports : List Report)
    (bodies : List Body) :
    (∃ dirty fault, e.applyReports now i reports bodies = ({ i with dirty }, .error fault)) ∨
      ∃ (t : Transaction) (i' : Image), e.prepare i reports bodies = .ok t ∧
        e.applyReports now i reports bodies =
          (i', .ok ⟨reports, t.applied now (Bytes.captured i.buffer t.patches)⟩) ∧ t.Ready i ∧
        (∀ x ∈ t.entries, x.FromCatalog e.catalog bodies) ∧ t.Committed i i' := by
  unfold applyReports
  split
  · exact .inl ⟨i.dirty, _, rfl⟩
  · rename_i t hprepare
    obtain ⟨hready, hcatalog, -⟩ := ready_of_prepare hprepare
    rw [Transaction.commit_eq now hready.progress hready.fileLength hready.fits]
    by_cases hnil : t.patches = []
    · rw [if_pos hnil]
      refine .inr ⟨t, i, hprepare, ?_, hready, hcatalog, .inl ⟨hnil, rfl⟩⟩
      rw [hnil]
      rfl
    · rw [if_neg hnil]
      cases i.store.fault with
      | none => exact .inr ⟨t, _, hprepare, rfl, hready, hcatalog, .inr ⟨hnil, rfl⟩⟩
      | some fault => exact .inl ⟨true, _, rfl⟩

/-- A run either fails, with nothing but the mark of a write left on the image, or commits a
transaction that is ready, and keeps the bytes that stood under its patches. -/
theorem apply_captured_cases (e : Engine) (now : Timestamp) (i : Image) (bodies : List Body) :
    (∃ dirty fault, e.apply now i bodies = ({ i with dirty }, .error fault)) ∨
      ∃ (reports : List Report) (t : Transaction) (i' : Image),
        e.apply now i bodies =
          (i', .ok ⟨reports, t.applied now (Bytes.captured i.buffer t.patches)⟩) ∧ t.Ready i ∧
        (∀ x ∈ t.entries, x.FromCatalog e.catalog bodies) ∧ t.Committed i i' := by
  unfold apply
  split
  · exact .inl ⟨i.dirty, _, rfl⟩
  · rename_i reports _
    exact (e.applyReports_cases now i reports bodies).imp_right fun ⟨t, i', _, h⟩ =>
      ⟨reports, t, i', h⟩

/-- A run either fails, with nothing but the mark of a write left on the image, or commits a
transaction that is ready. -/
theorem apply_cases (e : Engine) (now : Timestamp) (i : Image) (bodies : List Body) :
    (∃ dirty fault, e.apply now i bodies = ({ i with dirty }, .error fault)) ∨
      ∃ (reports : List Report) (t : Transaction) (captured : List Patch) (i' : Image),
        e.apply now i bodies = (i', .ok ⟨reports, t.applied now captured⟩) ∧ t.Ready i ∧
        (∀ x ∈ t.entries, x.FromCatalog e.catalog bodies) ∧ t.Committed i i' :=
  (e.apply_captured_cases now i bodies).imp_right fun ⟨reports, t, i', h⟩ =>
    ⟨reports, t, Bytes.captured i.buffer t.patches, i', h⟩

/-- A run that succeeds has committed the transaction that was prepared from its reports. -/
theorem exists_prepare_of_apply {e : Engine} {now : Timestamp} {i i' : Image} {bodies : List Body}
    {o : Outcome} (h : e.apply now i bodies = (i', .ok o)) :
    ∃ t, e.prepare i o.reports bodies = .ok t ∧
      o.transaction = t.applied now (Bytes.captured i.buffer t.patches) ∧ t.Committed i i' := by
  unfold apply at h
  split at h
  · cases h
  · rename_i reports _
    rcases e.applyReports_cases now i reports bodies with ⟨dirty, fault, hfault⟩ |
      ⟨t, i₁, hprepare, hok, -, -, hi⟩
    · rw [hfault] at h
      cases h
    · rw [hok] at h
      cases h
      exact ⟨t, hprepare, rfl, hi⟩

/-- **A run that commits a ready transaction patches the image.** -/
theorem patched_of_ready {e : Engine} {bodies : List Body} {t : Transaction} {i i' : Image}
    (h : t.Ready i) (hcatalog : ∀ x ∈ t.entries, x.FromCatalog e.catalog bodies)
    (hi : t.Committed i i') : e.Patched i i' t.entries := by
  have hbuffer := hi.buffer_eq
  have hfits := h.fits
  refine ⟨by grind, fun x hx => ?_, fun k hk => ?_, fun x hx => ?_, fun x hx hw => ?_,
    fun x hx hw => (h.inspected x hx).holdsAt_newBytes hw, ?_⟩
  · rw [hbuffer]
    exact h.holdsAt_overwriteAll hx
  · rw [hbuffer]
    refine Bytes.getElem?_overwriteAll_of_not_covers hfits fun p hp => ?_
    obtain ⟨x, hx, -, rfl⟩ := Transaction.mem_patches.1 hp
    exact hk x hx
  · obtain ⟨v, hv, hexp, -⟩ := hcatalog x hx
    exact ⟨v, hv, hexp⟩
  · exact ⟨(h.inspected x hx).holdsAt_expected hw, (h.inspected x hx).needsWrite_iff.1 hw⟩
  · rcases hi with ⟨hnil, rfl⟩ | ⟨hne, rfl⟩
    · refine .inr ⟨fun x hx => ?_, rfl, rfl⟩
      by_contra hw
      rw [Bool.not_eq_false] at hw
      have hmem : x.patch ∈ t.patches := Transaction.mem_patches.2 ⟨x, hx, hw, rfl⟩
      rw [hnil] at hmem
      exact List.not_mem_nil hmem
    · obtain ⟨p, hp⟩ := List.exists_mem_of_ne_nil _ hne
      obtain ⟨x, hx, hw, -⟩ := Transaction.mem_patches.1 hp
      exact .inl ⟨⟨x, hx, hw⟩, rfl, rfl⟩

/-- A run that overwrites a site changes the buffer. -/
theorem Patched.buffer_ne {e : Engine} {before after : Image} {entries : List Entry}
    (h : e.Patched before after entries) {x : Entry} (hx : x ∈ entries)
    (hw : x.needsWrite = true) : after.buffer ≠ before.buffer := by
  intro hsame
  have hheld := h.held x hx
  rw [hsame, (h.overwritten x hx hw).2] at hheld
  cases hheld

/-- **A run patches an image or leaves it as it was.** If it fails, the buffer is the one it had,
and so is the store, with what it holds and how often it was persisted; if it succeeds, every site
has been patched and nothing else has changed. -/
theorem apply_allOrNothing (e : Engine) (now : Timestamp) (i : Image) (bodies : List Body) :
    match e.apply now i bodies with
    | (i', .error _) => i'.buffer = i.buffer ∧ i'.store = i.store
    | (i', .ok o) => e.Patched i i' o.transaction.entries := by
  rcases e.apply_cases now i bodies with ⟨dirty, fault, h⟩ | ⟨reports, t, captured, i', h, hready,
    hcatalog, hi⟩
  · rw [h]
    exact ⟨rfl, rfl⟩
  · rw [h]
    exact patched_of_ready (t := t) hready hcatalog hi

/-! ## A second run -/

/-- **When a second run changes nothing.** After a run that succeeded, the next one with the same
bodies leaves the buffer and the stored bytes alone exactly when it fails or finds no target at a
place where the first run has not patched it and where the expected bytes stand, but not the new
ones. -/
theorem reapply_unchanged_iff {e : Engine} {now now' : Timestamp} {i i' : Image}
    {bodies : List Body} {o : Outcome} (h : e.apply now i bodies = (i', .ok o)) :
    ((e.apply now' i' bodies).1.buffer = i'.buffer ∧
        (e.apply now' i' bodies).1.store.bytes = i'.store.bytes) ↔
      ∀ o', (e.apply now' i' bodies).2 = .ok o' → ∀ x ∈ o'.transaction.entries,
        o.Elsewhere x → Bytes.holdsAt i'.buffer x.offset x.expected = true →
          Bytes.holdsAt i'.buffer x.offset x.newBytes = true := by
  obtain ⟨reports, t, captured, i₁, h₁, hready, hcatalog, hi⟩ :=
    (e.apply_cases now i bodies).resolve_left fun ⟨dirty, fault, hfault⟩ => by
      rw [h] at hfault
      cases hfault
  rw [h] at h₁
  cases h₁
  have hpatched : e.Patched i i' t.entries := patched_of_ready hready hcatalog hi
  rcases e.apply_cases now' i' bodies with ⟨dirty, fault, h'⟩ | ⟨reports', t', captured', i'', h',
    hready', hcatalog', hi'⟩
  · rw [h']
    exact iff_of_true ⟨rfl, rfl⟩ fun o' ho' => nomatch ho'
  · have hpatched' : e.Patched i' i'' t'.entries := patched_of_ready hready' hcatalog' hi'
    rw [h']
    constructor
    · rintro ⟨hbuffer, -⟩ o' ho' x hx - -
      cases ho'
      exact hbuffer ▸ hpatched'.held x hx
    · intro hall
      have hkept : ∀ x ∈ t'.entries, x.needsWrite = false := by
        intro x hx
        by_contra hw
        rw [Bool.not_eq_false] at hw
        obtain ⟨hexp, hnew⟩ := hpatched'.overwritten x hx hw
        refine Bool.false_ne_true (hnew.symm.trans (hall _ rfl x hx (fun y hy hid hp ho => ?_) hexp))
        have hbytes := (hcatalog y hy).newBytes_eq (hcatalog' x hx) hid hp
        have := hpatched.held y hy
        rw [ho, hbytes, hnew] at this
        cases this
      rcases hpatched'.stored with ⟨⟨x, hx, hw⟩, -⟩ | ⟨-, hbuffer, hstore⟩
      · exact absurd ((hkept x hx).symm.trans hw) Bool.false_ne_true
      · exact ⟨hbuffer, by rw [hstore]⟩

/-! ### New bytes that contain the expected ones -/

/-- One target, expected to hold `AA` and patched to `BB AA`, looked for near its last address. -/
def relapsing : Engine where
  catalog := {
    version := "1"
    targets := [{
      id := "A"
      category := .stereo
      variants := {
        linux := some {
          expected := [0xAA]
          payload := .bytes [0xBB, 0xAA]
          lastKnown := some 20 } } }] }
  limits := {}
  sound := rfl

/-- A file of 24 bytes with `AA` at 20. -/
def relapsingImage : Image where
  store.bytes := ⟨#[0x7F, 0x45, 0x4C, 0x46, 2, 1, 1, 0, 0, 0, 0, 0, 0, 0, 0, 0, 3, 0, 0, 0,
    0xAA, 0, 0, 0]⟩
  buffer := ⟨#[0x7F, 0x45, 0x4C, 0x46, 2, 1, 1, 0, 0, 0, 0, 0, 0, 0, 0, 0, 3, 0, 0, 0,
    0xAA, 0, 0, 0]⟩
  container := ⟨.elf, 0, .whole .linux .identity 24, []⟩

/-- The file is one that can be loaded. -/
example : Image.load relapsingImage.store = .ok relapsingImage := rfl

/-- The first run patches the site, and succeeds. -/
theorem apply_relapsing :
    ∃ i' o, relapsing.apply ⟨0, 0⟩ relapsingImage [] = (i', .ok o) ∧
      i' = (relapsing.apply ⟨0, 0⟩ relapsingImage []).1 := by
  have hok : (relapsing.apply ⟨0, 0⟩ relapsingImage []).2.isOk = true := by decide +kernel
  cases h : relapsing.apply ⟨0, 0⟩ relapsingImage [] with
  | mk i' result =>
    rw [h] at hok
    cases result with
    | error fault => cases hok
    | ok o => exact ⟨i', o, rfl, rfl⟩

/-- **A second run may patch a target again.** The bytes `BB AA` that the first run has written
hold `AA` one place further, where the second run finds the target. -/
theorem not_reapply_unchanged :
    ¬ ∀ (e : Engine) (now now' : Timestamp) (i i' : Image) (bodies : List Body) (o : Outcome),
      e.apply now i bodies = (i', .ok o) →
        (e.apply now' i' bodies).1.buffer = i'.buffer ∧
          (e.apply now' i' bodies).1.store.bytes = i'.store.bytes := by
  intro hall
  obtain ⟨i', o, h, hi'⟩ := apply_relapsing
  have hsame := (hall relapsing ⟨0, 0⟩ ⟨0, 0⟩ relapsingImage i' [] o h).1
  have hfirst : i'.buffer[22]? = some 0 := by
    rw [hi']
    decide +kernel
  have hsecond : (relapsing.apply ⟨0, 0⟩ i' []).1.buffer[22]? = some 0xAA := by
    rw [hi']
    decide +kernel
  rw [hsame, hfirst] at hsecond
  exact absurd hsecond (by decide)

/-- The first run on this file succeeds, so it is an instance of `reapply_unchanged_iff`: the
second run changes the file, and finds the target where the first one has not patched it. -/
theorem reapply_relapsing :
    ∃ i' o, relapsing.apply ⟨0, 0⟩ relapsingImage [] = (i', .ok o) ∧
      ∃ o', (relapsing.apply ⟨0, 0⟩ i' []).2 = .ok o' ∧ ∃ x ∈ o'.transaction.entries,
        o.Elsewhere x ∧ Bytes.holdsAt i'.buffer x.offset x.expected = true ∧
          Bytes.holdsAt i'.buffer x.offset x.newBytes = false := by
  obtain ⟨i', o, h, hi'⟩ := apply_relapsing
  have hchanged : (relapsing.apply ⟨0, 0⟩ i' []).1.buffer ≠ i'.buffer := by
    rw [hi']
    decide +kernel
  have hnot := mt (reapply_unchanged_iff h).2 fun hsame => hchanged hsame.1
  push Not at hnot
  obtain ⟨o', ho', x, hx, helse, hexp, hnew⟩ := hnot
  exact ⟨i', o, h, o', ho', x, hx, helse, hexp, Bool.not_eq_true _ ▸ hnew⟩

end Engine
end BinaryPatch
