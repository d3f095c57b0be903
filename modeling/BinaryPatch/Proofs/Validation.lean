/-
# Validation and inspection

Two parts of the program read the sites of some reports without writing: a transaction validates its
entries, and an inspection goes by the catalog. Where the catalog fixes what is written, they say the
same of a site.

| the site | validation | inspection |
| --- | --- | --- |
| begins with the new bytes | already applied | patched |
| else with the expected bytes | unpatched | unpatched |
| with neither | mismatch | foreign |
| reaches past the end | out of range | unresolved |

Neither looks at more bytes than the other, as an entry is as long as the site of its variant, and
both look for the new bytes first (`Transaction.inspectEntry_eq`, `Inspection.classify_fixed`). Site by
site this makes what is said of all reports (`Transaction.validate_agrees`). For slots it is another
matter: an inspection knows no bodies.
-/

import BinaryPatch.Proofs.Building
import BinaryPatch.Proofs.Progress

namespace BinaryPatch

/-- In a complete report every verdict is a site. -/
theorem Report.verdicts_eq_of_complete {r : Report} (h : r.unresolved = []) :
    r.verdicts = r.located.map .located := by
  unfold unresolved at h
  unfold located
  generalize r.verdicts = verdicts at h ⊢
  induction verdicts with
  | nil => rfl
  | cons v rest ih =>
    cases v with
    | located site => exact congrArg (.located site :: ·) (ih h)
    | unresolved target => cases h

/-! ## One site -/

/-- What is said of one site. -/
structure Checked where
  /-- The entry as validation leaves it. -/
  entry : Entry
  /-- The failure that validation reports. -/
  fault : Option SiteFault
  /-- What an inspection says. -/
  status : TargetStatus

/-- Validation and inspection say the same of a site of an image. -/
structure Checked.Agrees (k : Checked) (c : Catalog) (i : Image) : Prop where
  site : k.status.targetId = k.entry.targetId ∧ k.status.offset = some k.entry.offset
  observed : k.status.observed = k.entry.observed
  /-- A failure is reported exactly where no state is recorded. -/
  failing : k.fault ≠ none ↔ k.entry.state = none
  unresolved : k.fault = some (.outOfRange k.entry.offset k.entry.length i.size) ↔
    k.status.status = .unresolved
  /-- The rest is about targets for which the catalog fixes what is written. -/
  fixed : ∀ v bytes, c.variant? k.entry.targetId k.entry.platform = some v →
    v.payload = .bytes bytes →
      (k.entry.state = some .alreadyApplied ↔ k.status.status = .patched) ∧
      (k.entry.state = some .unpatched ↔ k.status.status = .unpatched) ∧
      ((∃ actual, k.fault =
          some (.mismatch k.entry.targetId k.entry.offset k.entry.expected actual)) ↔
        k.status.status = .foreign)

namespace Inspection

/-- What fixed bytes make of a site. -/
theorem classify_fixed {v : Variant} {fixed : List UInt8} (hpayload : v.payload = .bytes fixed)
    (p : Platform) {b : ByteArray} {o : Nat} (hfit : o + v.siteLength ≤ b.size) :
    classify v p (Bytes.window b o v.siteLength) =
      if Bytes.holdsAt b o fixed then .patched
      else if Bytes.holdsAt b o v.expected then .unpatched
      else .foreign := by
  have hnew : fixed.length ≤ v.siteLength := by
    rw [Variant.siteLength, hpayload]
    exact Nat.le_max_right ..
  have hexp : v.expected.length ≤ v.siteLength := Nat.le_max_left ..
  unfold classify
  rw [hpayload]
  simp only [Payload.fixed?, Payload.isSlot, Option.map_some, Option.some.injEq, Bool.false_and,
    Bool.eq_iff_iff.2 (Bytes.isPrefixOf_window_iff hnew hfit),
    Bool.eq_iff_iff.2 (Bytes.isPrefixOf_window_iff hexp hfit), Bool.false_eq_true, if_false]

theorem classify_ne_unresolved (v : Variant) (p : Platform) (observed : List UInt8) :
    classify v p observed ≠ .unresolved := by
  unfold classify
  split_ifs <;> exact nofun

/-- An inspection reads what an entry of the site reads. -/
theorem inspectTarget_eq {c : Catalog} {bodies : List Body} {s : Platform × Located} {x : Entry}
    (hx : x.BelongsTo c bodies s) {v : Variant} (hv : c.variant? s.2.targetId s.1 = some v)
    (i : Image) :
    x.length = v.siteLength ∧
      inspectTarget i c s.1 (.located s.2) =
        if x.offset + x.length ≤ i.size then
          let observed := Bytes.window i.buffer x.offset x.length
          ⟨x.targetId, some x.offset, classify v s.1 observed, some observed⟩
        else ⟨x.targetId, some x.offset, .unresolved, none⟩ := by
  have hlength : x.length = v.siteLength := by
    refine (Transaction.fromCatalog_of_belongsTo hx).length_eq ?_
    rw [hx.targetId, hx.platform, hv]
  refine ⟨hlength, ?_⟩
  unfold inspectTarget
  dsimp only
  rw [hv, hx.targetId, hx.offset, hlength]
  dsimp only
  by_cases hfit : s.2.offset + v.siteLength ≤ i.size
  · rw [if_pos hfit, Image.read_eq_ok hfit]
  · rw [if_neg hfit, Image.read_eq_error hfit]

end Inspection

namespace Transaction

/-- **Validation and inspection agree on a site.** -/
theorem agrees_of_belongsTo {c : Catalog} {bodies : List Body} {s : Platform × Located} {x : Entry}
    (hx : x.BelongsTo c bodies s) (i : Image) :
    Checked.Agrees ⟨(inspectEntry i x).1, (inspectEntry i x).2,
      Inspection.inspectTarget i c s.1 (.located s.2)⟩ c i := by
  obtain ⟨v, hv, hexpected, hcontent⟩ := hx.content
  obtain ⟨hlength, hinspect⟩ := Inspection.inspectTarget_eq hx hv i
  have hvariant : ∀ w, c.variant? x.targetId x.platform = some w → v = w := by
    intro w hw
    rw [hx.targetId, hx.platform] at hw
    exact Option.some.inj (hv.symm.trans hw)
  rw [hinspect, inspectEntry_eq]
  by_cases hfit : x.offset + x.length ≤ i.size
  · have hclassify : ∀ bytes, v.payload = .bytes bytes →
        Inspection.classify v s.1 (Bytes.window i.buffer x.offset x.length) =
          if Bytes.holdsAt i.buffer x.offset x.newBytes then .patched
          else if Bytes.holdsAt i.buffer x.offset x.expected then .unpatched
          else .foreign := by
      intro bytes hpayload
      rw [hpayload] at hcontent
      rw [hcontent, hexpected, hlength]
      exact Inspection.classify_fixed hpayload s.1 (hlength ▸ hfit)
    have hne := Inspection.classify_ne_unresolved v s.1 (Bytes.window i.buffer x.offset x.length)
    rw [if_pos hfit, if_pos hfit]
    dsimp only
    split_ifs with hnew hexp
    all_goals
      refine ⟨⟨rfl, rfl⟩, rfl, by simp, by simp [hne], fun w bytes hw hpayload => ?_⟩
      obtain rfl := hvariant w hw
      simp [hclassify bytes hpayload, hnew]
    · simp [hexp]
    · simp [hexp]
  · rw [if_neg hfit, if_neg hfit]
    exact ⟨⟨rfl, rfl⟩, rfl, by simp, by simp [Entry.length], fun _ _ _ _ => by simp⟩

/-! ## All sites -/

/-- An inspection of complete reports goes over their sites. -/
theorem flatMap_targets_eq {reports : List Report} (h : reports.flatMap Report.unresolved = [])
    (i : Image) (c : Catalog) :
    (reports.flatMap fun r => (Inspection.ofReport i r c).targets) =
      (sitesOf reports).map fun s => Inspection.inspectTarget i c s.1 (.located s.2) := by
  unfold sitesOf
  rw [List.map_flatMap]
  refine List.flatMap_congr fun r hr => ?_
  have hall : r.verdicts = r.located.map Verdict.located :=
    Report.verdicts_eq_of_complete (List.flatMap_eq_nil_iff.1 h r hr)
  unfold Inspection.ofReport
  dsimp only
  rw [hall, List.map_map, List.map_map]
  rfl

/-- What is said of all sites, in their order. -/
theorem exists_checked {c : Catalog} {bodies : List Body} {ss : List (Platform × Located)}
    {xs : List Entry} (h : List.Forall₂ (fun s x => x.BelongsTo c bodies s) ss xs) (i : Image) :
    ∃ sites : List Checked, sites.map Checked.entry = xs.map (fun x => (inspectEntry i x).1) ∧
      sites.map Checked.status =
        ss.map (fun s => Inspection.inspectTarget i c s.1 (.located s.2)) ∧
      sites.filterMap Checked.fault = xs.filterMap (fun x => (inspectEntry i x).2) ∧
      ∀ k ∈ sites, k.Agrees c i := by
  induction h with
  | nil => exact ⟨[], rfl, rfl, rfl, List.forall_mem_nil _⟩
  | @cons s x ss xs hx _ ih =>
    obtain ⟨sites, hentries, hstatus, hfaults, hagree⟩ := ih
    refine ⟨⟨(inspectEntry i x).1, (inspectEntry i x).2,
      Inspection.inspectTarget i c s.1 (.located s.2)⟩ :: sites, ?_, ?_, ?_, ?_⟩
    · rw [List.map_cons, List.map_cons, hentries]
    · rw [List.map_cons, List.map_cons, hstatus]
    · rw [List.filterMap_cons, List.filterMap_cons, hfaults]
    · exact List.forall_mem_cons.2 ⟨agrees_of_belongsTo hx i, hagree⟩

/-- **Validation and inspection agree.** On an image with the slices of the reports, what a
validation leaves of the entries and what an inspection says of the targets match site by site, and
the validation fails exactly if any site does, with one failure for each that does. -/
theorem validate_agrees {reports : List Report} {c : Catalog} {bodies : List Body}
    {t : Transaction} (h : build reports c bodies = .ok t) {i : Image}
    (hslices : ∀ r ∈ reports, i.hasSlice r.platform = true) :
    ∃ sites : List Checked, sites.map Checked.entry = (t.validate i).1.entries ∧
      sites.map Checked.status =
        (reports.flatMap fun r => (Inspection.ofReport i r c).targets) ∧
      (∀ k ∈ sites, k.Agrees c i) ∧
      (t.validate i).2 =
        match sites.filterMap Checked.fault with
        | [] => .ok ()
        | faults => .error (.rejected faults) := by
  obtain ⟨hnil, hentries, ht⟩ := entriesOf_of_build h
  have hbelongs := (forall₂_entriesOf hentries).imp fun s x hx => belongsTo_of_entry hx
  obtain ⟨sites, hsites, hstatus, hfaults, hagree⟩ := exists_checked hbelongs i
  have hplatforms : ∀ p ∈ t.platforms, i.hasSlice p = true := by
    rw [ht]
    exact List.forall_mem_map.2 hslices
  have hpending : t.progress = .pending := by rw [ht]
  refine ⟨sites, ?_, ?_, hagree, ?_⟩
  · rw [hsites, validate_eq (.inl hpending) hplatforms]
    cases t.entries.filterMap fun x => (inspectEntry i x).2 <;> rfl
  · rw [hstatus, flatMap_targets_eq hnil]
  · rw [hfaults, validate_eq (.inl hpending) hplatforms]
    cases t.entries.filterMap fun x => (inspectEntry i x).2 <;> rfl

/-- Of two targets validation finds the first unpatched and the second patched already, and so does
an inspection, by `validate_agrees`. -/
theorem status_mixed :
    (Inspection.ofReport mixedImage mixedReport mixedCatalog).targets.map TargetStatus.status =
      [.unpatched, .patched] := by
  obtain ⟨sites, hentries, hstatus, hagree, -⟩ :=
    validate_agrees build_mixed (i := mixedImage) (by decide)
  have hfound : (mixed.validate mixedImage).1.entries =
      [⟨"A", .linux, 20, [0xAA], [0xBB, 0xCC], some [0xAA, 0], some .unpatched⟩,
        ⟨"B", .linux, 24, [0xDD, 0xDD], [0xEE], some [0xEE, 0], some .alreadyApplied⟩] := by
    decide +kernel
  rw [hfound] at hentries
  obtain ⟨a, b, rfl⟩ : ∃ a b, sites = [a, b] :=
    List.length_eq_two.1 (by simpa using congrArg List.length hentries)
  obtain ⟨ha, hb⟩ : a.entry = _ ∧ b.entry = _ := by simpa using hentries
  have hagreeA := (hagree a (by simp)).fixed
  have hagreeB := (hagree b (by simp)).fixed
  rw [ha] at hagreeA
  rw [hb] at hagreeB
  have hA : a.status.status = .unpatched := (hagreeA _ _ rfl rfl).2.1.1 rfl
  have hB : b.status.status = .patched := (hagreeB _ _ rfl rfl).1.1 rfl
  have htargets : (Inspection.ofReport mixedImage mixedReport mixedCatalog).targets =
      [a.status, b.status] := by simpa using hstatus.symm
  rw [htargets, List.map_cons, List.map_singleton, hA, hB]

end Transaction
end BinaryPatch
