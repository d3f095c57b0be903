/-
# Every target has its entry

On a sound catalog only one thing can keep an engine from its reports. The order of derivation
exists on every platform, those without rules included, and every signature reads as a pattern: so
the search goes through every target of the platform. What is known of a target goes through a table
keyed by ids, and as ids are distinct no entry is lost there and none comes twice. But a slot has as
many cells as its length, which no check bounds, and where the signature of such a target is to be
overlaid with more cells than a list can hold, the search breaks off.

So there is one report for each slice, in the order of the slices, and it lists the targets with a
variant for the platform of the slice, each once and in the order of the catalog, exactly when each
target leaves room (`Engine.resolve_covers_iff`). An inspection lists what its report lists.
-/

import BinaryPatch.Engine
import BinaryPatch.Proofs.Report

namespace BinaryPatch
namespace Resolution

/-- Cross-checking withdraws offsets, but forgets no target. -/
theorem Resolved.isSome_get?_crossCheck {s : Survey} {c : Catalog} {fs : Findings} {r : Report}
    (h : Resolved s c fs r) {t : Target} (ht : t ∈ c.targetsFor s.slice.platform) :
    ((fs.crossCheck (c.rulesFor s.slice.platform)).get? t.id).isSome = true := by
  rw [(Findings.withdrawnFrom_crossCheck fs (c.rulesFor s.slice.platform)).known t.id]
  exact (h.solves.known t.id).2 (List.mem_map_of_mem ht)

/-- **A report lists the targets of its platform, in the order of the catalog.** -/
theorem Resolved.map_targetId_verdicts {s : Survey} {c : Catalog} {fs : Findings} {r : Report}
    (h : Resolved s c fs r) :
    r.verdicts.map Verdict.targetId = (c.targetsFor s.slice.platform).map Target.id := by
  rw [h.verdicts, List.map_filterMap, ← List.filterMap_eq_map]
  refine List.filterMap_congr fun t ht => ?_
  obtain ⟨f, hf⟩ := Option.isSome_iff_exists.1 (h.isSome_get?_crossCheck ht)
  simp [hf]

/-- Where every slice has a report, the reports stand in the order of the slices. -/
theorem exists_resolveSlices {image : Image} {c : Catalog} {limits : Limits} {slices : List Slice}
    {P : Slice → Report → Prop}
    (h : ∀ slice ∈ slices, ∃ r, resolveSlice image slice c limits = .ok r ∧ P slice r) :
    ∃ rs, resolveSlices image c limits slices = .ok rs ∧
      List.Forall₂ (fun slice r => resolveSlice image slice c limits = .ok r ∧ P slice r)
        slices rs := by
  induction slices with
  | nil => exact ⟨[], rfl, .nil⟩
  | cons slice rest ih =>
    obtain ⟨r, hr, hP⟩ := h slice List.mem_cons_self
    obtain ⟨rs, hrs, hrest⟩ := ih fun other hother => h other (List.mem_cons_of_mem slice hother)
    refine ⟨r :: rs, ?_, .cons ⟨hr, hP⟩ hrest⟩
    rw [resolveSlices, hr]
    dsimp only
    rw [hrs]
    rfl

end Resolution

/-- The ids are those of the targets that have a variant for the platform, each once and in the
order of the catalog. -/
structure Catalog.ListsTargets (c : Catalog) (p : Platform) (ids : List String) : Prop where
  eq : ids = (c.targets.filter fun t => (t.variants.get? p).isSome).map Target.id
  nodup : ids.Nodup

theorem Resolution.platform_of_resolveSlice {i : Image} {slice : Slice} {c : Catalog}
    {limits : Limits} {r : Report} (h : resolveSlice i slice c limits = .ok r) :
    r.platform = slice.platform := by
  unfold resolveSlice at h
  split at h
  · cases h
  · dsimp only at h
    split at h
    · cases h
    · cases h
      rfl

/-- **A report lists the targets of its platform.** -/
theorem Resolution.listsTargets_of_resolveSlice {c : Catalog} (hsound : c.Sound) {i : Image}
    {slice : Slice} {limits : Limits} {r : Report} (h : resolveSlice i slice c limits = .ok r) :
    c.ListsTargets slice.platform (r.verdicts.map Verdict.targetId) := by
  obtain ⟨fs, hresolved⟩ := resolved_of_resolveSlice hsound h
  have hids := hresolved.map_targetId_verdicts
  exact ⟨hids, hids ▸ hsound.nodup_targetsFor slice.platform⟩

/-- **A slice on which the search breaks off leaves the whole file without reports.** -/
theorem Resolution.resolveSlices_eq_capacity {c : Catalog} (hsound : c.Sound) {i : Image}
    {limits : Limits} {slices : List Slice} (h : ∃ slice ∈ slices, ¬ c.HasRoom slice.platform) :
    resolveSlices i c limits slices = .error .capacity := by
  induction slices with
  | nil =>
    obtain ⟨slice, hslice, -⟩ := h
    cases hslice
  | cons slice rest ih =>
    unfold resolveSlices
    by_cases hroom : c.HasRoom slice.platform
    · obtain ⟨-, -, r, -, -, hr, -⟩ := exists_resolved hsound i hroom limits
      obtain ⟨other, hother, hnarrow⟩ := h
      have hrest : other ∈ rest := by
        rcases List.mem_cons.1 hother with rfl | hrest
        · exact absurd hroom hnarrow
        · exact hrest
      rw [hr]
      dsimp only
      rw [ih ⟨other, hrest, hnarrow⟩]
      rfl
    · rw [(breaksOff hsound hroom).broken]

namespace Inspection

@[simp]
theorem targetId_inspectTarget (i : Image) (c : Catalog) (p : Platform) (v : Verdict) :
    (inspectTarget i c p v).targetId = v.targetId := by
  cases v with
  | unresolved target => rfl
  | located site =>
    dsimp only [inspectTarget]
    split
    · rfl
    · split <;> rfl

/-- An inspection lists the targets of its report. -/
@[simp]
theorem map_targetId_ofReport (i : Image) (r : Report) (c : Catalog) :
    (ofReport i r c).targets.map TargetStatus.targetId = r.verdicts.map Verdict.targetId := by
  simp [ofReport]

end Inspection

namespace Engine

/-- There is an engine for every catalog that is accepted. -/
theorem ofCatalog_eq_ok {c : Catalog} (h : c.validate = .ok ()) (limits : Limits) :
    ofCatalog c limits = .ok ⟨c, limits, h⟩ := by
  unfold ofCatalog
  split
  · rename_i hfault
    rw [h] at hfault
    cases hfault
  · rfl

/-- An engine covers an image: there is one report for each slice, in the order of the slices, and
one inspection by each. Each report, and each inspection, lists the targets with a variant for the
platform of its slice, each once and in the order of the catalog. -/
structure Covers (e : Engine) (i : Image) : Prop where
  reports : ∃ reports, e.resolve i = .ok reports ∧
    List.Forall₂ (fun slice (r : Report) =>
      Resolution.resolveSlice i slice e.catalog e.limits = .ok r ∧ r.platform = slice.platform ∧
        e.catalog.ListsTargets slice.platform (r.verdicts.map Verdict.targetId)) i.slices reports
  inspections : ∃ inspections, e.status i = .ok inspections ∧
    List.Forall₂ (fun slice (s : Inspection) => s.platform = slice.platform ∧
      e.catalog.ListsTargets slice.platform (s.targets.map TargetStatus.targetId))
        i.slices inspections

section Covers

variable {e : Engine} {i : Image}

/-- Every slice is covered where each target leaves room. -/
theorem covers_of_hasRoom (h : ∀ slice ∈ i.slices, e.catalog.HasRoom slice.platform) :
    e.Covers i := by
  have hsound := Catalog.sound_of_validate e.sound
  have hreport : ∀ slice ∈ i.slices, ∃ r,
      Resolution.resolveSlice i slice e.catalog e.limits = .ok r ∧ r.platform = slice.platform ∧
        e.catalog.ListsTargets slice.platform (r.verdicts.map Verdict.targetId) := by
    intro slice hslice
    obtain ⟨-, -, r, -, -, hr, -⟩ :=
      Resolution.exists_resolved hsound i (h slice hslice) e.limits
    exact ⟨r, hr, Resolution.platform_of_resolveSlice hr,
      Resolution.listsTargets_of_resolveSlice hsound hr⟩
  obtain ⟨reports, hreports, hall⟩ := Resolution.exists_resolveSlices hreport
  refine ⟨⟨reports, hreports, hall⟩,
    reports.map fun r => Inspection.ofReport i r e.catalog, ?_, ?_⟩
  · unfold status
    rw [show e.resolve i = .ok reports from hreports]
    rfl
  · rw [List.forall₂_map_right_iff]
    exact hall.imp fun slice r hr => ⟨hr.2.1, by simpa using hr.2.2⟩

/-- Where a target leaves no room on one slice, no report is left. -/
theorem resolve_eq_capacity (h : ∃ slice ∈ i.slices, ¬ e.catalog.HasRoom slice.platform) :
    e.resolve i = .error .capacity :=
  Resolution.resolveSlices_eq_capacity (Catalog.sound_of_validate e.sound) h

theorem status_eq_capacity (h : e.resolve i = .error .capacity) :
    e.status i = .error .capacity := by
  unfold status
  rw [h]
  rfl

end Covers

/-- **An accepted catalog covers exactly the images on whose slices each target leaves room.** There
is an engine for it, whatever the bounds of its searches. The engine covers an image unless a target
with a signature has, on the platform of a slice, a slot of more cells than a list can hold: then it
breaks off, and has neither reports nor inspections. -/
theorem resolve_covers_iff {c : Catalog} (h : c.validate = .ok ()) (limits : Limits) (i : Image) :
    ∃ e, ofCatalog c limits = .ok e ∧
      (e.Covers i ↔ ∀ slice ∈ i.slices, c.HasRoom slice.platform) ∧
      (¬ e.Covers i → e.resolve i = .error .capacity ∧ e.status i = .error .capacity) := by
  refine ⟨⟨c, limits, h⟩, ofCatalog_eq_ok h limits, ?_⟩
  by_cases hroom : ∀ slice ∈ i.slices, c.HasRoom slice.platform
  · have hcovers := covers_of_hasRoom (e := ⟨c, limits, h⟩) hroom
    exact ⟨iff_of_true hcovers hroom, absurd hcovers⟩
  · have hbroken : resolve ⟨c, limits, h⟩ i = .error .capacity := by
      push Not at hroom
      exact resolve_eq_capacity hroom
    refine ⟨iff_of_false (fun hcovers => ?_) hroom, fun _ => ⟨hbroken, status_eq_capacity hbroken⟩⟩
    obtain ⟨reports, hreports, -⟩ := hcovers.reports
    rw [hbroken] at hreports
    cases hreports

/-- Both targets of this catalog are listed, the one with a signature and the one derived from it. -/
theorem resolve_covers_pair :
    Resolution.pair.validate = .ok () ∧ ∃ e reports,
      ofCatalog Resolution.pair {} = .ok e ∧ e.resolve Resolution.pairImage = .ok reports ∧
        reports.map (fun r => r.verdicts.map Verdict.targetId) = [["A", "B"]] := by
  have hvalid : Resolution.pair.validate = .ok () :=
    Catalog.validate_eq_ok_iff.2 (by decide +kernel)
  obtain ⟨e, he, hcovers, -⟩ := resolve_covers_iff hvalid {} Resolution.pairImage
  obtain ⟨reports, hreports, hall⟩ := (hcovers.2 (by decide)).reports
  refine ⟨hvalid, e, reports, he, hreports, ?_⟩
  obtain rfl := Except.ok.inj ((ofCatalog_eq_ok hvalid {}).symm.trans he)
  -- the file has one slice
  obtain ⟨r, rest, ⟨-, -, hlists⟩, hrest, rfl⟩ := List.forall₂_cons_left_iff.1 hall
  obtain rfl := List.forall₂_nil_left_iff.1 hrest
  rw [List.map_singleton, hlists.eq]
  rfl

/-- One target with a signature, whose slot has one cell more than a list can hold. -/
def endless : Catalog where
  version := "1"
  targets := [
    { id := "A"
      category := .injection
      variants := {
        linux := some {
          expected := [0xAA]
          signature := some { pattern := "AA BB" }
          payload := .slot 0x4000000000000000 } } }]

/-- **An accepted catalog need not have a report.** No check bounds the length of a slot, and the
search breaks off where the cells of this one are to be laid over the signature. -/
theorem not_resolve_covers :
    ¬ ∀ (c : Catalog) (limits : Limits) (i : Image) (e : Engine), c.validate = .ok () →
      ofCatalog c limits = .ok e → e.Covers i := by
  intro hall
  have hvalid : endless.validate = .ok () := Catalog.validate_eq_ok_iff.2 (by decide +kernel)
  have hnarrow : ∃ slice ∈ Resolution.pairImage.slices, ¬ endless.HasRoom slice.platform := by decide
  have hcovers := hall endless {} Resolution.pairImage _ hvalid (ofCatalog_eq_ok hvalid {})
  obtain ⟨reports, hreports, -⟩ := hcovers.reports
  rw [resolve_eq_capacity hnarrow] at hreports
  cases hreports

end Engine
end BinaryPatch
