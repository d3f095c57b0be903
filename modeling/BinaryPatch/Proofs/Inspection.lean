/-
# What an inspection says of a patched image

An inspection knows the catalog but no function bodies, so it cannot compare a slot with what a run
has written there. It goes by signs: a slot counts as patched when it no longer begins with the
expected bytes and ends in padding. A body that begins with the expected bytes, or that fills its
slot to the last byte and does not end as padding does, bears no such sign.

| payload | what a run leaves | status |
| --- | --- | --- |
| bytes | the bytes | patched |
| slot | expected bytes first | unpatched |
| slot | padding last, no expected bytes first | patched |
| slot | anything else | foreign |

So after a run that succeeds a target is reported as patched exactly when what was written for it
bears the signs (`Catalog.Shows`), and an image exactly when all of its targets do
(`Engine.inspect_apply`).
-/

import BinaryPatch.Proofs.Apply
import BinaryPatch.Proofs.Coverage

namespace BinaryPatch

/-! ## The content of a slot -/

namespace Body

theorem length_paddingFrom (arch : Arch) (start stop : Nat) :
    (paddingFrom arch start stop).length = stop - start := by
  simp [paddingFrom]

/-- Padding ends with the byte that stands last in it. -/
theorem getLast?_paddingFrom (arch : Arch) {start stop : Nat} (h : start < stop) :
    (paddingFrom arch start stop).getLast? = some (padding arch (stop - 1)) := by
  have hne : stop - start ≠ 0 := by omega
  have hlast : start + (stop - start) - 1 = stop - 1 := by omega
  simp [paddingFrom, List.getLast?_range', hne, hlast]

variable {b : Body} {slot : Nat} {arch : Arch} {content : List UInt8}

/-- The body comes first, and padding behind it. -/
theorem eq_of_spliceInto (h : b.spliceInto slot arch = .ok content) :
    b.code.length ≤ slot ∧ content = b.code ++ paddingFrom arch b.code.length slot := by
  unfold spliceInto at h
  dsimp only at h
  split at h
  · cases h
  · split at h
    · cases h
    · cases h
      exact ⟨by omega, rfl⟩

/-- **A slot is filled exactly.** -/
theorem length_of_spliceInto (h : b.spliceInto slot arch = .ok content) :
    content.length = slot := by
  obtain ⟨hle, rfl⟩ := eq_of_spliceInto h
  rw [List.length_append, length_paddingFrom]
  omega

/-- **A slot ends in padding** when the body leaves room for some, or ends as padding does. -/
theorem isPadded_of_spliceInto (h : b.spliceInto slot arch = .ok content) :
    isPadded content arch = true ↔
      b.code.length < slot ∨ b.code.getLast? = some (padding arch (slot - 1)) := by
  have hlength := length_of_spliceInto h
  obtain ⟨hle, rfl⟩ := eq_of_spliceInto h
  unfold isPadded
  rw [decide_eq_true_iff, hlength]
  rcases Nat.lt_or_eq_of_le hle with hlt | heq
  · have hlast : (b.code ++ paddingFrom arch b.code.length slot).getLast? =
        some (padding arch (slot - 1)) := by
      rw [List.getLast?_append, getLast?_paddingFrom arch hlt, Option.some_or]
    exact iff_of_true hlast (.inl hlt)
  · have hnil : paddingFrom arch b.code.length slot = [] := by
      apply List.eq_nil_of_length_eq_zero
      rw [length_paddingFrom]
      omega
    rw [hnil, List.append_nil]
    exact ⟨.inr, fun hor => hor.resolve_left (by omega)⟩

/-- The signs by which a slot counts as patched once it holds the body. -/
structure ShowsIn (b : Body) (slot : Nat) (arch : Arch) (expected : List UInt8) : Prop where
  /-- The slot no longer begins with the expected bytes. -/
  changed : ¬ expected <+: b.code ++ paddingFrom arch b.code.length slot
  /-- It ends in padding, or as padding does. -/
  padded : b.code.length < slot ∨ b.code.getLast? = some (padding arch (slot - 1))

end Body

/-! ## Telling a site by its bytes -/

/-- What is written for the target `id` bears the signs of a patched site. Fixed bytes are known to
an inspection, a slot has to show that it holds the body that is meant for it. -/
def Variant.Shows (v : Variant) (id : String) (p : Platform) (bodies : List Body) : Prop :=
  match v.payload with
  | .bytes _ => True
  | .slot length => ∃ b, (bodies.find? fun b => b.fits id p) = some b ∧
      b.ShowsIn length.toNat p.arch v.expected

/-- What is written for a target of the catalog bears the signs of a patched site. -/
def Catalog.Shows (c : Catalog) (bodies : List Body) (p : Platform) (id : String) : Prop :=
  ∃ v, c.variant? id p = some v ∧ v.Shows id p bodies

namespace Transaction

variable {id : String} {p : Platform} {bodies : List Body} {written : List UInt8}

theorem newBytes_slot {length : UInt64}
    (h : newBytes id p bodies (.slot length) = .ok written) :
    ∃ b, (bodies.find? fun b => b.fits id p) = some b ∧
      b.spliceInto length.toNat p.arch = .ok written := by
  unfold newBytes at h
  dsimp only at h
  split at h
  · cases h
  · rename_i b hb
    exact ⟨b, hb, h⟩

/-- What is written is as long as the payload says. -/
theorem length_newBytes {payload : Payload} (h : newBytes id p bodies payload = .ok written) :
    written.length = payload.length := by
  cases payload with
  | bytes fixed =>
    cases h
    rfl
  | slot length =>
    obtain ⟨b, -, hcontent⟩ := newBytes_slot h
    exact Body.length_of_spliceInto hcontent

end Transaction

/-- An entry is as long as the site of its variant. -/
theorem Entry.FromCatalog.length_eq {c : Catalog} {bodies : List Body} {x : Entry}
    (h : x.FromCatalog c bodies) {v : Variant}
    (hv : c.variant? x.targetId x.platform = some v) : x.length = v.siteLength := by
  obtain ⟨w, hw, hexpected, hwritten⟩ := h
  obtain rfl : v = w := Option.some.inj (hv.symm.trans hw)
  rw [Entry.length, hexpected, Transaction.length_newBytes hwritten, Variant.siteLength]

namespace Inspection

/-- **A site that holds what was written for it counts as patched exactly when that shows.** -/
theorem classify_eq_patched_iff {v : Variant} {id : String} {p : Platform} {bodies : List Body}
    {written observed : List UInt8} (h : Transaction.newBytes id p bodies v.payload = .ok written)
    (hsound : v.payload.Sound v.expected) (hlength : observed.length = v.siteLength)
    (hheld : written <+: observed) :
    classify v p observed = .patched ↔ v.Shows id p bodies := by
  unfold classify Variant.Shows
  unfold Variant.siteLength at hlength
  cases hpayload : v.payload with
  | bytes fixed =>
    rw [hpayload] at h
    cases h
    simp [Payload.fixed?, hheld]
  | slot length =>
    rw [hpayload] at h hsound hlength
    obtain ⟨b, hb, hcontent⟩ := Transaction.newBytes_slot h
    -- the slot is the whole site
    obtain rfl : written = observed := by
      have hwritten := Body.length_of_spliceInto hcontent
      have hroom : v.expected.length ≤ length.toNat := hsound
      have hslot : (Payload.slot length).length = length.toNat := rfl
      exact hheld.eq_of_length (by omega)
    have hpadded := Body.isPadded_of_spliceInto hcontent
    obtain ⟨-, heq⟩ := Body.eq_of_spliceInto hcontent
    have hshows : (∃ b, (bodies.find? fun b => b.fits id p) = some b ∧
        b.ShowsIn length.toNat p.arch v.expected) ↔
          ¬ v.expected <+: written ∧ Body.isPadded written p.arch = true := by
      rw [hpadded, heq]
      constructor
      · rintro ⟨b', hb', hshows⟩
        obtain rfl : b = b' := Option.some.inj (hb.symm.trans hb')
        exact ⟨hshows.changed, hshows.padded⟩
      · rintro ⟨hchanged, hlast⟩
        exact ⟨b, hb, hchanged, hlast⟩
    dsimp only
    rw [hshows, ← List.isPrefixOf_iff_prefix]
    cases v.expected.isPrefixOf written <;> cases Body.isPadded written p.arch <;>
      simp [Payload.fixed?, Payload.isSlot]

theorem ofSites_eq_patched_iff {sites : List SiteStatus} :
    PatchStatus.ofSites sites = .patched ↔ sites ≠ [] ∧ ∀ s ∈ sites, s = .patched := by
  unfold PatchStatus.ofSites
  split
  · rename_i hall
    simpa using hall
  · rename_i hall
    refine iff_of_false (by split <;> simp) ?_
    simpa using hall

/-- An inspection of a site that holds what an entry writes. -/
theorem status_inspectTarget_iff {c : Catalog} (hsound : c.Sound) {bodies : List Body} {x : Entry}
    (hx : x.FromCatalog c bodies) {i : Image} (hfits : x.offset + x.length ≤ i.size)
    (hheld : Bytes.holdsAt i.buffer x.offset x.newBytes = true) {site : Located}
    (hid : x.targetId = site.targetId) (ho : x.offset = site.offset) :
    (inspectTarget i c x.platform (.located site)).status = .patched ↔
      c.Shows bodies x.platform site.targetId := by
  have ⟨v, hv, _, hwritten⟩ := hx
  have hsize : x.length = v.siteLength := hx.length_eq hv
  rw [hsize] at hfits
  have hprefix : x.newBytes <+: Bytes.window i.buffer x.offset v.siteLength := by
    have hle : x.newBytes.length ≤ v.siteLength := hsize ▸ Nat.le_max_right ..
    exact List.isPrefixOf_iff_prefix.1 ((Bytes.isPrefixOf_window_iff hle hfits).2 hheld)
  have hclassify := classify_eq_patched_iff hwritten (hsound.sound_of_variant? hv).payload
    (Bytes.length_window hfits) hprefix
  have hshows : c.Shows bodies x.platform x.targetId ↔ v.Shows x.targetId x.platform bodies := by
    constructor
    · rintro ⟨w, hw, hshows⟩
      obtain rfl : v = w := Option.some.inj (hv.symm.trans hw)
      exact hshows
    · exact fun hshows => ⟨v, hv, hshows⟩
  rw [← hid, hshows, ← hclassify]
  unfold inspectTarget
  dsimp only
  rw [← hid, ← ho, hv]
  dsimp only
  rw [Image.read_eq_ok hfits]

end Inspection

namespace Engine

/-- **What an inspection says after a run that succeeded.** By the reports of the run, a target of
the image counts as patched exactly when what was written for it shows that, and the image counts as
patched exactly when it has targets and all of them do. -/
theorem inspect_apply {e : Engine} {now : Timestamp} {i i' : Image} {bodies : List Body}
    {o : Outcome} (h : e.apply now i bodies = (i', .ok o)) {r : Report} (hr : r ∈ o.reports) :
    (∀ s ∈ (Inspection.ofReport i' r e.catalog).targets,
        s.status = .patched ↔ e.catalog.Shows bodies r.platform s.targetId) ∧
      ((Inspection.ofReport i' r e.catalog).overall = .patched ↔
        r.verdicts ≠ [] ∧ ∀ v ∈ r.verdicts, e.catalog.Shows bodies r.platform v.targetId) := by
  obtain ⟨t, hprepare, -, hi⟩ := exists_prepare_of_apply h
  obtain ⟨hready, hcatalog, hcovered⟩ := ready_of_prepare hprepare
  have hpatched : e.Patched i i' t.entries := patched_of_ready hready hcatalog hi
  have hstatus : ∀ v ∈ r.verdicts,
      (Inspection.inspectTarget i' e.catalog r.platform v).status = .patched ↔
        e.catalog.Shows bodies r.platform v.targetId := by
    intro v hv
    obtain ⟨site, rfl, x, hx, hid, hp, ho⟩ := hcovered r hr v hv
    have hfits : x.offset + x.length ≤ i'.size := by
      rw [hpatched.size_eq]
      exact (hready.inspected x hx).fits
    rw [← hp]
    exact Inspection.status_inspectTarget_iff (Catalog.sound_of_validate e.sound) (hcatalog x hx)
      hfits (hpatched.held x hx) hid ho
  unfold Inspection.ofReport
  dsimp only
  rw [Inspection.ofSites_eq_patched_iff]
  constructor
  · intro s hs
    obtain ⟨v, hv, rfl⟩ := List.mem_map.1 hs
    simp [hstatus v hv]
  · simp only [List.map_map, List.forall_mem_map, Function.comp_apply, ne_eq, List.map_eq_nil_iff]
    exact and_congr_right fun _ => forall₂_congr hstatus

/-! ### Bodies that do and do not show -/

/-- One target, a slot of two bytes that is expected to begin with `AA`. -/
def slotted : Engine where
  catalog := {
    version := "1"
    targets := [{
      id := "A"
      category := .injection
      variants := {
        linux := some {
          expected := [0xAA]
          payload := .slot 2
          lastKnown := some 20 } } }] }
  limits := {}
  sound := rfl

/-- A run with a body for the slot. -/
def filled (code : List UInt8) : Image × Except Fault Outcome :=
  slotted.apply ⟨0, 0⟩ relapsingImage [⟨"A", code, 2, none⟩]

/-- What such a run finds. -/
def slottedReport : Report where
  catalogVersion := "1"
  platform := .linux
  format := .elf
  verdicts := [.located ⟨"A", 20, .fuzzySearch, none, some 20⟩]

theorem exists_filled (code : List UInt8)
    (h : (filled code).2.toOption.map Outcome.reports = some [slottedReport]) :
    ∃ o, filled code = ((filled code).1, .ok o) ∧ slottedReport ∈ o.reports := by
  cases hrun : filled code with
  | mk i' result =>
    rw [hrun] at h
    cases result with
    | error fault => cases h
    | ok o =>
      have hreports : o.reports = [slottedReport] := Option.some.inj h
      exact ⟨o, rfl, hreports ▸ List.mem_singleton_self _⟩

/-- A body that begins with the expected bytes looks as if nothing had been written. -/
example : (Inspection.ofReport (filled [0xAA]).1 slottedReport slotted.catalog).overall =
    .unpatched := by decide +kernel

/-- **A run that succeeds need not be reported as patched.** A body that fills its slot and does not
end as padding does is taken for bytes of another origin. -/
theorem not_inspect_apply_patched :
    ¬ ∀ (e : Engine) (now : Timestamp) (i i' : Image) (bodies : List Body) (o : Outcome),
      e.apply now i bodies = (i', .ok o) → ∀ r ∈ o.reports, r.verdicts ≠ [] →
        (∀ s ∈ (Inspection.ofReport i' r e.catalog).targets, s.status = .patched) ∧
          (Inspection.ofReport i' r e.catalog).overall = .patched := by
  intro hall
  obtain ⟨o, h, hr⟩ := exists_filled [0xC3, 0xC3] (by decide +kernel)
  have hpatched := (hall slotted ⟨0, 0⟩ relapsingImage _ _ o h slottedReport hr (by decide)).2
  have hfound : (Inspection.ofReport (filled [0xC3, 0xC3]).1 slottedReport
      slotted.catalog).overall = .partially := by decide +kernel
  rw [hfound] at hpatched
  cases hpatched

/-- A body of one byte leaves room for padding, and the run is reported as patched. -/
theorem inspect_apply_padded :
    ∃ o, filled [0xC3] = ((filled [0xC3]).1, .ok o) ∧ slottedReport ∈ o.reports ∧
      (Inspection.ofReport (filled [0xC3]).1 slottedReport slotted.catalog).overall =
        .patched := by
  obtain ⟨o, h, hr⟩ := exists_filled [0xC3] (by decide +kernel)
  refine ⟨o, h, hr, (inspect_apply h hr).2.2 ⟨by decide, fun v hv => ?_⟩⟩
  obtain rfl : v = .located ⟨"A", 20, .fuzzySearch, none, some 20⟩ := List.mem_singleton.1 hv
  exact ⟨_, rfl, _, rfl, by decide, .inl (by decide)⟩

end Engine
end BinaryPatch
