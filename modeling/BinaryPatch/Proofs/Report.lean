/-
# What a report rests on

The targets of a slice are looked for one after another, and what is known of the earlier ones
leads to the later ones. As every target comes behind those it may be derived from, what has been
found in the end solves one equation for each target (`Resolution.Solves`): the search for it,
given the places that rules lead to *in the end*, yields what is known of it.

Cross-checking then withdraws some offsets, but leaves every other one with all that it rests on:
a derived offset keeps its source. So in a report on a sound catalog every site is justified
(`Resolution.Evidence`) and every rule between two sites holds (`Resolution.resolveSlice_justified`).

There is a report unless the search breaks off (`Resolution.BreaksOff`). On a sound catalog it does
so for one reason only: the signature of a target is to be overlaid with more cells than a list can
hold.
-/

import BinaryPatch.Proofs.Locate
import BinaryPatch.Proofs.Withdrawal
import BinaryPatch.Resolution.Run

namespace BinaryPatch
namespace Resolution

/-! ## One equation for each target -/

/-- What is known of each target is what the search for it yields. -/
structure Solves (s : Survey) (rules : List Rule) (ts : List Target) (fs : Findings) : Prop where
  known : ∀ id, (fs.get? id).isSome = true ↔ id ∈ ts.map Target.id
  entry : ∀ t ∈ ts, ∃ v scanner, t.variants.get? s.slice.platform = some v ∧
    v.scanner? = .ok scanner ∧
      fs.get? t.id = some (s.locate v scanner (candidates rules fs t.id))

/-- Where rules lead depends on what is known of their sources alone. -/
theorem candidates_congr {rules : List Rule} {fs gs : Findings} {id : String}
    (h : ∀ r ∈ rules, r.dest = id → fs.get? r.source = gs.get? r.source) :
    candidates rules fs id = candidates rules gs id := by
  unfold candidates
  refine List.filterMap_congr fun r hr => ?_
  obtain ⟨hr, hdest⟩ := List.mem_filter.1 hr
  unfold Findings.found?
  rw [h r hr (by simpa using hdest)]

/-- The rules that lead to a target. -/
def rulesTo (rules : List Rule) (id : String) : List Rule := rules.filter fun r => r.dest == id

/-- Where rules lead depends on those to the target alone. -/
theorem candidates_eq_of_rulesTo_eq {rules rules' : List Rule} {id : String}
    (h : rulesTo rules' id = rulesTo rules id) (fs : Findings) :
    candidates rules' fs id = candidates rules fs id := by
  unfold rulesTo at h
  unfold candidates
  rw [h]

/-- A candidate lies where a rule leads from a target with an offset. -/
theorem of_mem_candidates {rules : List Rule} {fs : Findings} {id : String}
    {c : Survey.Candidate} (h : c ∈ candidates rules fs id) :
    ∃ r ∈ rules, r.dest = id ∧ r.source = c.source ∧ ∃ origin,
      fs.found? r.source = some origin ∧ (c.offset : Int) = origin.offset + r.delta.toInt := by
  unfold candidates at h
  obtain ⟨r, hr, hc⟩ := List.mem_filterMap.1 h
  obtain ⟨hr, hdest⟩ := List.mem_filter.1 hr
  obtain ⟨origin, horigin, hc⟩ := Option.bind_eq_some_iff.1 hc
  obtain ⟨offset, hoffset, hc⟩ := Option.bind_eq_some_iff.1 hc
  cases hc
  refine ⟨r, hr, by simpa using hdest, rfl, origin, horigin, ?_⟩
  unfold Rule.apply at hoffset
  dsimp only at hoffset
  split at hoffset
  · rename_i hplace
    cases hoffset
    exact Int.toNat_of_nonneg hplace.1
  · cases hoffset

namespace Solves

variable {s : Survey} {rules : List Rule} {ts : List Target} {fs : Findings}
  (h : Solves s rules ts fs) {id : String} {found : Found}
include h

theorem get?_eq_none (hid : id ∉ ts.map Target.id) : fs.get? id = none := by
  have hget := mt (h.known id).1 hid
  rwa [Bool.not_eq_true, Option.isSome_eq_false_iff, Option.isNone_iff_eq_none] at hget

theorem found?_eq_none (hid : id ∉ ts.map Target.id) : fs.found? id = none := by
  rw [Findings.found?, h.get?_eq_none hid]
  rfl

/-- Every offset that was found is justified by the search for its target. -/
theorem exists_justifies (hfound : fs.found? id = some found) :
    ∃ v scanner, s.Justifies v scanner (candidates rules fs id) found := by
  obtain ⟨f, hf, hfound⟩ := Findings.exists_of_found? hfound
  obtain ⟨t, ht, rfl⟩ := List.mem_map.1 ((h.known id).1 (by rw [hf]; rfl))
  obtain ⟨v, scanner, -, -, hget⟩ := h.entry t ht
  obtain rfl := Option.some.inj (hf.symm.trans hget)
  exact ⟨v, scanner, Survey.justifies_of_locate hfound⟩

/-- **A derived offset lies where a rule leads from its source.** -/
theorem exists_rule {source : String} (hfound : fs.found? id = some found)
    (hsource : found.source = some source) :
    ∃ r ∈ rules, r.dest = id ∧ r.source = source ∧ ∃ origin, fs.found? source = some origin ∧
      (found.offset : Int) = origin.offset + r.delta.toInt := by
  obtain ⟨v, scanner, hjust⟩ := h.exists_justifies hfound
  obtain ⟨-, c, hc, hoffset, rfl⟩ := hjust.exists_candidate hsource
  obtain ⟨r, hr, hdest, hname, origin, horigin, hplace⟩ := of_mem_candidates hc
  exact ⟨r, hr, hdest, hname, origin, hname ▸ horigin, hoffset ▸ hplace⟩

/-- Offsets are only derived from targets that have one. -/
theorem rooted : fs.Rooted := fun _ _ _ hfound hsource =>
  have ⟨_, _, _, _, origin, horigin, _⟩ := h.exists_rule hfound hsource
  ⟨origin, horigin⟩

/-- What is known of a target is what the search for its variant yields. -/
theorem get?_eq_locate {t : Target} (ht : t ∈ ts) {v : Variant} {scanner : Option Scanner}
    (hv : t.variants.get? s.slice.platform = some v) (hscanner : v.scanner? = .ok scanner) :
    fs.get? t.id = some (s.locate v scanner (candidates rules fs t.id)) := by
  obtain ⟨v', scanner', hv', hscanner', hget⟩ := h.entry t ht
  obtain rfl := Option.some.inj (hv.symm.trans hv')
  obtain rfl := Except.ok.inj (hscanner.symm.trans hscanner')
  exact hget

/-- Two searches for one target are one search, with what each knows of the sources. -/
theorem exists_search {rules' : List Rule} {us : List Target} {gs : Findings}
    (h' : Solves s rules' us gs) {t : Target} (ht : t ∈ ts) (hu : t ∈ us) :
    ∃ v scanner, t.variants.get? s.slice.platform = some v ∧ v.scanner? = .ok scanner ∧
      fs.get? t.id = some (s.locate v scanner (candidates rules fs t.id)) ∧
        gs.get? t.id = some (s.locate v scanner (candidates rules' gs t.id)) := by
  obtain ⟨v, scanner, hv, hscanner, hget⟩ := h.entry t ht
  exact ⟨v, scanner, hv, hscanner, hget, h'.get?_eq_locate hu hv hscanner⟩

end Solves

section LocateAll

variable {s : Survey} {rules : List Rule} {ts : List Target}

/-- **In an order that puts sources first, every search sees what is known of them in the end.** -/
theorem exists_locateAll (hnodup : (ts.map Target.id).Nodup) (hordered : Catalog.Ordered rules ts)
    (hts : ∀ t ∈ ts, ∃ v scanner, t.variants.get? s.slice.platform = some v ∧
      v.scanner? = .ok scanner) (fs : Findings) :
    ∃ out, locateAll s rules fs ts = .ok out ∧
      (∀ id, id ∉ ts.map Target.id → out.get? id = fs.get? id) ∧
      ∀ t ∈ ts, ∃ v scanner, t.variants.get? s.slice.platform = some v ∧
        v.scanner? = .ok scanner ∧
          out.get? t.id = some (s.locate v scanner (candidates rules out t.id)) := by
  induction ts generalizing fs with
  | nil => exact ⟨fs, rfl, fun _ _ => rfl, fun t ht => absurd ht List.not_mem_nil⟩
  | cons t rest ih =>
    obtain ⟨v, scanner, hv, hscanner⟩ := hts t List.mem_cons_self
    rw [List.map_cons, List.nodup_cons] at hnodup
    obtain ⟨out, hout, hothers, hrest⟩ := ih hnodup.2 hordered.2
      (fun u hu => hts u (List.mem_cons_of_mem t hu))
      (fs.put t.id (s.locate v scanner (candidates rules fs t.id)))
    have hkept : ∀ id, id ∉ (t :: rest).map Target.id → out.get? id = fs.get? id := by
      intro id hid
      rw [List.map_cons, List.mem_cons, not_or] at hid
      simp [hothers id hid.2, hid.1]
    have hsources : candidates rules fs t.id = candidates rules out t.id :=
      candidates_congr fun r hr hdest => (hkept _ (hordered.1 r hr hdest)).symm
    refine ⟨out, ?_, hkept, fun u hu => ?_⟩
    · rw [locateAll]
      simp only [hv, hscanner]
      exact hout
    · rcases List.mem_cons.1 hu with rfl | hu
      · refine ⟨v, scanner, hv, hscanner, ?_⟩
        simp [hothers _ hnodup.1, hsources]
      · exact hrest u hu

/-- **The search breaks off at the first target that leaves no room.** -/
theorem locateAll_eq_capacity
    (hts : ∀ t ∈ ts, ∃ v, t.variants.get? s.slice.platform = some v ∧ v.Sound)
    (hnarrow : ∃ t ∈ ts, ∃ v, t.variants.get? s.slice.platform = some v ∧ ¬ v.HasRoom)
    (fs : Findings) : locateAll s rules fs ts = .error .capacity := by
  induction ts generalizing fs with
  | nil =>
    obtain ⟨t, ht, -⟩ := hnarrow
    cases ht
  | cons t rest ih =>
    obtain ⟨v, hv, hsound⟩ := hts t List.mem_cons_self
    rw [locateAll]
    simp only [hv]
    rcases hsound.scanner?_cases with ⟨hroom, scanner, hscanner⟩ | ⟨-, hscanner⟩
    · rw [hscanner]
      refine ih (fun u hu => hts u (List.mem_cons_of_mem t hu)) ?_ _
      obtain ⟨u, hu, w, hw, hnarrow⟩ := hnarrow
      rcases List.mem_cons.1 hu with rfl | hu
      · obtain rfl := Option.some.inj (hv.symm.trans hw)
        exact absurd hroom hnarrow
      · exact ⟨u, hu, w, hw, hnarrow⟩
    · rw [hscanner]

end LocateAll

/-! ## Verdicts -/

/-- With ids of their own, every target that something is known of has its verdict. -/
theorem verdicts_eq {slice : Slice} {ts : List Target} (hnodup : (ts.map Target.id).Nodup)
    (fs : Findings) :
    verdicts slice fs ts =
      ts.filterMap fun t => (fs.get? t.id).map fun f => verdict slice t.id f := by
  induction ts generalizing fs with
  | nil => rfl
  | cons t rest ih =>
    rw [List.map_cons, List.nodup_cons] at hnodup
    rw [verdicts, List.filterMap_cons]
    cases hf : fs.get? t.id with
    | none => exact ih hnodup.2 fs
    | some f =>
      dsimp only [Option.map_some]
      rw [ih hnodup.2]
      refine congrArg _ (List.filterMap_congr fun u hu => ?_)
      have hne : u.id ≠ t.id := fun heq => hnodup.1 (heq ▸ List.mem_map_of_mem hu)
      rw [Findings.get?_filter_of_ne hne]

/-- **The targets of a sound catalog are found in its order of derivation**, where each leaves
room. -/
theorem exists_findings {c : Catalog} (h : c.Sound) (s : Survey)
    (hroom : c.HasRoom s.slice.platform) :
    ∃ order fs, c.derivationOrder s.slice.platform = .ok order ∧
      locateAll s (c.rulesFor s.slice.platform) [] order = .ok fs ∧
      Solves s (c.rulesFor s.slice.platform) (c.targetsFor s.slice.platform) fs := by
  obtain ⟨order, horder, hperm, hordered⟩ := h.exists_order s.slice.platform
  have hids := hperm.map Target.id
  have hts : ∀ t ∈ order, ∃ v scanner, t.variants.get? s.slice.platform = some v ∧
      v.scanner? = .ok scanner := by
    intro t ht
    obtain ⟨ht, hv⟩ := Catalog.Sound.mem_targetsFor_iff.1 (hperm.mem_iff.1 ht)
    obtain ⟨v, hv⟩ := Option.isSome_iff_exists.1 hv
    obtain ⟨scanner, hscanner⟩ := (h.variants t ht _ v hv).exists_scanner (hroom t ht v hv)
    exact ⟨v, scanner, hv, hscanner⟩
  obtain ⟨fs, hfs, hothers, hentry⟩ := exists_locateAll
    (hids.nodup_iff.2 (h.nodup_targetsFor s.slice.platform)) hordered hts []
  refine ⟨order, fs, horder, hfs, fun id => ?_, fun t ht => hentry t (hperm.mem_iff.2 ht)⟩
  rw [← hids.mem_iff]
  constructor
  · intro hsome
    by_contra hid
    simp [hothers id hid] at hsome
  · intro hid
    obtain ⟨t, ht, rfl⟩ := List.mem_map.1 hid
    obtain ⟨v, scanner, -, -, hget⟩ := hentry t ht
    rw [hget]
    rfl

/-- What is found of the targets of a slice is cross-checked and reported. -/
theorem resolveSlice_eq {image : Image} {slice : Slice} {c : Catalog} {limits : Limits}
    {order : List Target} {fs : Findings} (horder : c.derivationOrder slice.platform = .ok order)
    (hfs : locateAll ⟨image.buffer, slice, limits⟩ (c.rulesFor slice.platform) [] order = .ok fs) :
    resolveSlice image slice c limits = .ok {
      catalogVersion := c.version
      platform := slice.platform
      format := image.container.format
      verdicts := verdicts slice (fs.crossCheck (c.rulesFor slice.platform))
        (c.targetsFor slice.platform) } := by
  unfold resolveSlice
  rw [horder]
  dsimp only
  rw [hfs]

/-- A report on a sound catalog, and what was known of its targets before cross-checking. -/
structure Resolved (s : Survey) (c : Catalog) (fs : Findings) (r : Report) : Prop where
  sound : c.Sound
  solves : Solves s (c.rulesFor s.slice.platform) (c.targetsFor s.slice.platform) fs
  verdicts : r.verdicts = (c.targetsFor s.slice.platform).filterMap fun t =>
    ((fs.crossCheck (c.rulesFor s.slice.platform)).get? t.id).map fun f => verdict s.slice t.id f

/-- **There is a report on every slice**, from what is found in the order of derivation, where each
target leaves room. -/
theorem exists_resolved {c : Catalog} (h : c.Sound) (image : Image) {slice : Slice}
    (hroom : c.HasRoom slice.platform) (limits : Limits) :
    ∃ order fs r, c.derivationOrder slice.platform = .ok order ∧
      locateAll ⟨image.buffer, slice, limits⟩ (c.rulesFor slice.platform) [] order = .ok fs ∧
      resolveSlice image slice c limits = .ok r ∧
      Resolved ⟨image.buffer, slice, limits⟩ c fs r := by
  obtain ⟨order, fs, horder, hfs, hsolves⟩ := exists_findings h ⟨image.buffer, slice, limits⟩ hroom
  exact ⟨order, fs, _, horder, hfs, resolveSlice_eq horder hfs, h, hsolves,
    verdicts_eq (h.nodup_targetsFor slice.platform) _⟩

/-! ## Breaking off -/

/-- There is no report on a slice, as a target for its platform leaves no room. -/
structure BreaksOff (image : Image) (slice : Slice) (c : Catalog) (limits : Limits) : Prop where
  narrow : ¬ c.HasRoom slice.platform
  broken : resolveSlice image slice c limits = .error .capacity

section BreaksOff

variable {c : Catalog} (h : c.Sound) {image : Image} {slice : Slice} {limits : Limits}
include h

/-- **A target that leaves no room keeps the whole slice from its report.** -/
theorem breaksOff (hnarrow : ¬ c.HasRoom slice.platform) : BreaksOff image slice c limits := by
  refine ⟨hnarrow, ?_⟩
  obtain ⟨order, horder, hperm, -⟩ := h.exists_order slice.platform
  have hbroken : locateAll ⟨image.buffer, slice, limits⟩ (c.rulesFor slice.platform) [] order =
      .error .capacity := by
    refine locateAll_eq_capacity (fun t ht => ?_) ?_ []
    · obtain ⟨ht, hv⟩ := Catalog.Sound.mem_targetsFor_iff.1 (hperm.mem_iff.1 ht)
      obtain ⟨v, hv⟩ := Option.isSome_iff_exists.1 hv
      exact ⟨v, hv, h.variants t ht _ v hv⟩
    · unfold Catalog.HasRoom at hnarrow
      push Not at hnarrow
      obtain ⟨t, ht, v, hv, hnarrow⟩ := hnarrow
      refine ⟨t, hperm.mem_iff.2 (Catalog.Sound.mem_targetsFor_iff.2 ⟨ht, ?_⟩), v, hv, hnarrow⟩
      exact Option.isSome_iff_exists.2 ⟨v, hv⟩
  unfold resolveSlice
  rw [horder]
  dsimp only
  rw [hbroken]

/-- What holds of a slice where each target leaves room holds, or the search breaks off. -/
theorem or_breaksOff {P : Prop} (hP : c.HasRoom slice.platform → P) :
    P ∨ BreaksOff image slice c limits := by
  by_cases hroom : c.HasRoom slice.platform
  · exact .inl (hP hroom)
  · exact .inr (breaksOff h hroom)

/-- Where there is a report, each target leaves room. -/
theorem hasRoom_of_resolveSlice {r : Report} (hr : resolveSlice image slice c limits = .ok r) :
    c.HasRoom slice.platform := by
  by_contra hnarrow
  have hbroken : resolveSlice image slice c limits = .error .capacity :=
    (breaksOff h hnarrow).broken
  rw [hr] at hbroken
  cases hbroken

theorem resolved_of_resolveSlice {r : Report} (hr : resolveSlice image slice c limits = .ok r) :
    ∃ fs, Resolved ⟨image.buffer, slice, limits⟩ c fs r := by
  obtain ⟨-, fs, r', -, -, hr', hresolved⟩ :=
    exists_resolved h image (hasRoom_of_resolveSlice h hr) limits
  obtain rfl := Except.ok.inj (hr'.symm.trans hr)
  exact ⟨fs, hresolved⟩

end BreaksOff

/-! ## Sites and failures -/

/-- The site at an offset that was found. -/
def site (slice : Slice) (id : String) (found : Found) : Located :=
  ⟨id, found.offset, found.method, found.source, slice.toAddress found.offset⟩

/-- The sites of a report are the offsets that cross-checking leaves. -/
theorem Resolved.mem_located_iff {s : Survey} {c : Catalog} {fs : Findings} {r : Report}
    (h : Resolved s c fs r) {x : Located} :
    x ∈ r.located ↔ ∃ t ∈ c.targetsFor s.slice.platform, ∃ found,
      (fs.crossCheck (c.rulesFor s.slice.platform)).found? t.id = some found ∧
        x = site s.slice t.id found := by
  unfold Report.located
  rw [h.verdicts, List.filterMap_filterMap, List.mem_filterMap]
  refine exists_congr fun t => and_congr_right fun _ => ?_
  unfold Findings.found?
  cases (fs.crossCheck (c.rulesFor s.slice.platform)).get? t.id with
  | none => simp
  | some f =>
    cases hf : f.found with
    | none => simp [verdict, hf, Verdict.located?]
    | some found => simp [verdict, hf, Verdict.located?, site, eq_comm]

/-- The failures of a report are the attempts that cross-checking leaves. -/
theorem Resolved.mem_unresolved_iff {s : Survey} {c : Catalog} {fs : Findings} {r : Report}
    (h : Resolved s c fs r) {u : Unresolved} :
    u ∈ r.unresolved ↔ ∃ t ∈ c.targetsFor s.slice.platform, ∃ f,
      (fs.crossCheck (c.rulesFor s.slice.platform)).get? t.id = some f ∧ f.found = none ∧
        u = ⟨t.id, f.attempts⟩ := by
  unfold Report.unresolved
  rw [h.verdicts, List.filterMap_filterMap, List.mem_filterMap]
  refine exists_congr fun t => and_congr_right fun _ => ?_
  cases (fs.crossCheck (c.rulesFor s.slice.platform)).get? t.id with
  | none => simp
  | some f =>
    cases hf : f.found with
    | none => simp [verdict, hf, Verdict.unresolved?, eq_comm]
    | some found => simp [verdict, hf, Verdict.unresolved?]

@[simp]
theorem targetId_verdict (slice : Slice) (id : String) (f : Finding) :
    (verdict slice id f).targetId = id := by
  unfold verdict
  split <;> rfl

/-- Among the verdicts on targets, the one on a target is found by its id. -/
theorem find?_verdicts (slice : Slice) {fs : Findings} {ts : List Target} {id : String}
    (h : (fs.get? id).isSome = true → id ∈ ts.map Target.id) :
    (ts.filterMap fun t => (fs.get? t.id).map fun f => verdict slice t.id f).find?
      (fun v => v.targetId == id) = (fs.get? id).map (verdict slice id) := by
  induction ts with
  | nil =>
    cases hf : fs.get? id with
    | none => rfl
    | some f => exact absurd (h (by rw [hf]; rfl)) List.not_mem_nil
  | cons t rest ih =>
    rw [List.filterMap_cons]
    by_cases hid : t.id = id
    · subst hid
      cases hf : fs.get? t.id with
      | none =>
        rw [hf] at ih
        exact ih nofun
      | some f => simp
    · have hrest := ih fun hsome => (List.mem_cons.1 (h hsome)).resolve_left (Ne.symm hid)
      cases fs.get? t.id with
      | none => exact hrest
      | some f =>
        simpa [hid] using hrest

/-- No rule leads from a target to itself. -/
theorem Resolved.rules_ne {s : Survey} {c : Catalog} {fs : Findings} {r : Report}
    (h : Resolved s c fs r) : ∀ rule ∈ c.rulesFor s.slice.platform, rule.source ≠ rule.dest :=
  fun rule hrule => (h.sound.rules rule (h.sound.mem_rulesFor_iff.1 hrule).1).2.2

/-- **The verdict on a target is what cross-checking leaves of it.** -/
theorem Resolved.get?_eq {s : Survey} {c : Catalog} {fs : Findings} {r : Report}
    (h : Resolved s c fs r) (id : String) :
    r.get? id =
      ((fs.crossCheck (c.rulesFor s.slice.platform)).get? id).map (verdict s.slice id) := by
  unfold Report.get?
  rw [h.verdicts]
  refine find?_verdicts s.slice fun hsome => (h.solves.known id).1 ?_
  rwa [← (Findings.withdrawnFrom_crossCheck fs _).known id]

/-- Only the targets of the platform have a verdict. -/
theorem Resolved.get?_eq_none {s : Survey} {c : Catalog} {fs : Findings} {r : Report}
    (h : Resolved s c fs r) {id : String}
    (hid : id ∉ (c.targetsFor s.slice.platform).map Target.id) : r.get? id = none := by
  have hknown := mt (h.solves.known id).1 hid
  rw [← (Findings.withdrawnFrom_crossCheck fs (c.rulesFor s.slice.platform)).known id,
    Bool.not_eq_true, Option.isSome_eq_false_iff, Option.isNone_iff_eq_none] at hknown
  rw [h.get?_eq, hknown]
  rfl

/-! ## Justified reports -/

/-- What the site of a target in a report rests on. -/
structure Evidence (s : Survey) (c : Catalog) (r : Report) (v : Variant)
    (scanner : Option Scanner) (x : Located) : Prop where
  /-- The site lies inside the slice. -/
  inside : s.slice.range.start ≤ x.offset ∧ x.offset + v.siteLength ≤ s.slice.range.stop
  /-- The signature matches around a site that it was found by. -/
  direct : x.method = .directSignature → ∃ sc, scanner = some sc ∧ sc.anchor ≤ x.offset ∧
    sc.MatchesIn s.buffer s.slice.range (x.offset - sc.anchor)
  /-- A derived site lies where a rule leads from another site, and resembles the target. -/
  derived : x.method = .derived → (∃ origin ∈ r.located, x.source = some origin.targetId ∧
      ∃ rule ∈ c.rules, rule.platform = s.slice.platform ∧ rule.source = origin.targetId ∧
        rule.dest = x.targetId ∧ (x.offset : Int) = origin.offset + rule.delta.toInt) ∧
    v.Resembles scanner s.buffer s.slice.range x.offset
  /-- A site found in a window holds bytes of the target, and the signature has no two sites. -/
  fuzzy : x.method = .fuzzySearch →
    (v.holdsExpected s.buffer x.offset = true ∨ v.holdsPatch s.buffer x.offset = true) ∧
      ∀ sc, scanner = some sc → (s.signatureSites sc).length ≤ 1

/-- A report in which every site is justified, and no two sites contradict a rule. -/
structure Justified (s : Survey) (c : Catalog) (r : Report) : Prop where
  evidence : ∀ x ∈ r.located, ∃ v scanner, c.variant? x.targetId s.slice.platform = some v ∧
    v.scanner? = .ok scanner ∧ Evidence s c r v scanner x
  rules : ∀ rule ∈ c.rules, rule.platform = s.slice.platform → ∀ source ∈ r.located,
    ∀ dest ∈ r.located, source.targetId = rule.source → dest.targetId = rule.dest →
      (dest.offset : Int) - source.offset = rule.delta.toInt

/-- The place of a site that fits into the slice is a word, and not the largest. -/
theorem lt_maxWord_of_fits {s : Survey} {v : Variant} (hv : v.Sound)
    (hstop : s.slice.range.stop ≤ maxWord) {offset : Nat}
    (h : s.fits offset v.siteLength = true) : offset < maxWord := by
  have hpos := List.length_pos_of_ne_nil hv.expected_ne_nil
  have hle : v.expected.length ≤ v.siteLength := Nat.le_max_left _ _
  have := (Survey.fits_iff.1 h).2
  omega

namespace Resolved

variable {s : Survey} {c : Catalog} {fs : Findings} {r : Report} (h : Resolved s c fs r)
include h

/-- **What is known of a target is what the search for its variant yields.** -/
theorem exists_locate {t : Target} (ht : t ∈ c.targetsFor s.slice.platform) :
    ∃ v scanner, c.variant? t.id s.slice.platform = some v ∧ v.scanner? = .ok scanner ∧
      v.Sound ∧ (∀ sc, scanner = some sc → sc.Sound) ∧
        fs.get? t.id =
          some (s.locate v scanner (candidates (c.rulesFor s.slice.platform) fs t.id)) := by
  obtain ⟨v, scanner, hv, hscanner, hget⟩ := h.solves.entry t ht
  have hmem := (Catalog.Sound.mem_targetsFor_iff.1 ht).1
  have hvsound := h.sound.variants t hmem _ v hv
  exact ⟨v, scanner, (h.sound.variant?_eq hmem _).trans hv, hscanner, hvsound,
    hvsound.sound_of_scanner? hscanner, hget⟩

/-- **An offset that cross-checking leaves is justified by the search for its target.** -/
theorem justifies {t : Target} (ht : t ∈ c.targetsFor s.slice.platform) {found : Found}
    (hfound : (fs.crossCheck (c.rulesFor s.slice.platform)).found? t.id = some found) :
    ∃ v scanner, c.variant? t.id s.slice.platform = some v ∧ v.scanner? = .ok scanner ∧
      v.Sound ∧ (∀ sc, scanner = some sc → sc.Sound) ∧
        s.Justifies v scanner (candidates (c.rulesFor s.slice.platform) fs t.id) found := by
  obtain ⟨v, scanner, hv, hscanner, hvsound, hsound, hget⟩ := h.exists_locate ht
  have hlocate := (Findings.withdrawnFrom_crossCheck fs _).found _ _ hfound
  rw [Findings.found?_of_get? hget] at hlocate
  exact ⟨v, scanner, hv, hscanner, hvsound, hsound, Survey.justifies_of_locate hlocate⟩

/-- A target with an offset belongs to the platform. -/
theorem exists_target {id : String} {found : Found} (hfound : fs.found? id = some found) :
    ∃ t ∈ c.targetsFor s.slice.platform, t.id = id := by
  obtain ⟨f, hf, -⟩ := Findings.exists_of_found? hfound
  exact List.mem_map.1 ((h.solves.known id).1 (by rw [hf]; rfl))

/-- **The source of a derived site has its own site in the report.** What was derived from it
would have been withdrawn with it, and its offset is the one that the rule started from. -/
theorem exists_origin {id : String} {found : Found}
    (hfound : (fs.crossCheck (c.rulesFor s.slice.platform)).found? id = some found)
    {candidate : Survey.Candidate}
    (hmem : candidate ∈ candidates (c.rulesFor s.slice.platform) fs id)
    (hoffset : found.offset = candidate.offset) (hsource : found.source = some candidate.source) :
    ∃ origin ∈ r.located, found.source = some origin.targetId ∧
      ∃ rule ∈ c.rules, rule.platform = s.slice.platform ∧ rule.source = origin.targetId ∧
        rule.dest = id ∧ (found.offset : Int) = origin.offset + rule.delta.toInt := by
  have hkept := Findings.withdrawnFrom_crossCheck fs (c.rulesFor s.slice.platform)
  obtain ⟨rule, hrule, hdest, hname, start, hstart, hplace⟩ := of_mem_candidates hmem
  obtain ⟨hrule, hplatform⟩ := h.sound.mem_rulesFor_iff.1 hrule
  obtain ⟨origin, horigin⟩ :=
    (Findings.consistent_crossCheck fs _).sources id found candidate.source hfound hsource
  -- what is left of the source is what the offset was derived from
  have hsame : start = origin := Option.some.inj
    (hstart.symm.trans (hname ▸ hkept.found _ _ horigin))
  obtain ⟨t, ht, hid⟩ := h.exists_target (hkept.found _ _ horigin)
  rw [← hid] at horigin hsource hname
  refine ⟨site s.slice t.id origin, h.mem_located_iff.2 ⟨t, ht, origin, horigin, rfl⟩, hsource,
    rule, hrule, hplatform, hname, hdest, ?_⟩
  rw [hoffset, hplace, hsame]
  rfl

/-- **There is evidence for every site.** -/
theorem evidence (hstop : s.slice.range.stop ≤ maxWord) {x : Located} (hx : x ∈ r.located) :
    ∃ v scanner, c.variant? x.targetId s.slice.platform = some v ∧ v.scanner? = .ok scanner ∧
      Evidence s c r v scanner x := by
  obtain ⟨t, ht, found, hfound, rfl⟩ := h.mem_located_iff.1 hx
  obtain ⟨v, scanner, hv, hscanner, hvsound, hscsound, hjust⟩ := h.justifies ht hfound
  refine ⟨v, scanner, hv, hscanner, Survey.fits_iff.1 hjust.inside, fun hdirect => ?_,
    fun hderived => ?_, fun hfuzzy => (hjust.fuzzy hfuzzy).2⟩
  · obtain ⟨-, sc, hsc, hsites⟩ := hjust.direct hdirect
    have hword := lt_maxWord_of_fits hvsound hstop hjust.inside
    exact ⟨sc, hsc, Survey.matchesIn_of_signatureSites (hscsound sc hsc) hsites hword⟩
  · obtain ⟨candidate, hmem, hoffset, hsource, hlooks⟩ := hjust.derived hderived
    exact ⟨h.exists_origin hfound hmem hoffset hsource,
      ((Survey.looksLike_iff hscsound).1 hlooks).2⟩

/-- **Every rule between two sites holds.** -/
theorem delta_eq {rule : Rule} (hrule : rule ∈ c.rules)
    (hplatform : rule.platform = s.slice.platform) {source dest : Located}
    (hsource : source ∈ r.located) (hdest : dest ∈ r.located)
    (hs : source.targetId = rule.source) (hd : dest.targetId = rule.dest) :
    (dest.offset : Int) - source.offset = rule.delta.toInt := by
  obtain ⟨t, -, found, hfound, rfl⟩ := h.mem_located_iff.1 hsource
  obtain ⟨u, -, other, hother, rfl⟩ := h.mem_located_iff.1 hdest
  refine (Findings.consistent_crossCheck fs _).rules rule
    (h.sound.mem_rulesFor_iff.2 ⟨hrule, hplatform⟩) found other ?_ ?_
  · exact hs ▸ hfound
  · exact hd ▸ hother

end Resolved

/-- **Every report on an accepted catalog is justified**, and there is one unless a target leaves no
room. The end of the slice is a word, as all offsets of a file are. -/
theorem resolveSlice_justified {c : Catalog} (h : c.validate = .ok ()) (image : Image)
    {slice : Slice} (hstop : slice.range.stop ≤ maxWord) (limits : Limits) :
    (∃ r, resolveSlice image slice c limits = .ok r ∧
      Justified ⟨image.buffer, slice, limits⟩ c r) ∨ BreaksOff image slice c limits := by
  have hsound := Catalog.sound_of_validate h
  refine or_breaksOff hsound fun hroom => ?_
  obtain ⟨-, fs, r, -, -, hr, hresolved⟩ := exists_resolved hsound image hroom limits
  exact ⟨r, hr, fun x hx => hresolved.evidence hstop hx,
    fun rule hrule hplatform source hsource dest hdest hs hd =>
      hresolved.delta_eq hrule hplatform hsource hdest hs hd⟩

/-- What an evaluated outcome is the image of. -/
theorem exists_ok_of_toOption_map {ε α β : Type} {x : Except ε α} {g : α → β} {b : β}
    (h : x.toOption.map g = some b) : ∃ a, x = .ok a ∧ g a = b := by
  cases x with
  | error e => cases h
  | ok a => exact ⟨a, rfl, Option.some.inj h⟩

/-- Two targets, of which the second has no signature and is derived from the first. -/
def pair : Catalog where
  version := "1"
  targets := [
    { id := "A"
      category := .stereo
      variants := {
        linux := some {
          expected := [0xBB]
          signature := some { pattern := "AA ?? CC", anchor := 1 }
          payload := .bytes [0xDD] } } },
    { id := "B"
      category := .stereo
      variants := {
        linux := some {
          expected := [0xEE]
          payload := .bytes [0xFF] } } }]
  rules := [{ platform := .linux, source := "A", dest := "B", delta := 2 }]

/-- A file of 24 bytes that holds the first target at 21 and the second at 23. -/
def pairImage : Image where
  store.bytes := ⟨#[0x7F, 0x45, 0x4C, 0x46, 2, 1, 1, 0, 0, 0, 0, 0, 0, 0, 0, 0, 3, 0, 0, 0,
    0xAA, 0xBB, 0xCC, 0xEE]⟩
  buffer := ⟨#[0x7F, 0x45, 0x4C, 0x46, 2, 1, 1, 0, 0, 0, 0, 0, 0, 0, 0, 0, 3, 0, 0, 0,
    0xAA, 0xBB, 0xCC, 0xEE]⟩
  container := ⟨.elf, 0, .whole .linux .identity 24, []⟩

/-- The report on this file is justified, and gives both targets a site. -/
theorem resolveSlice_pair_justified :
    ∃ r, resolveSlice pairImage pairImage.primary pair {} = .ok r ∧
      Justified ⟨pairImage.buffer, pairImage.primary, {}⟩ pair r ∧
        r.located.map Located.offset = [21, 23] := by
  have hvalid : pair.validate = .ok () := Catalog.validate_eq_ok_iff.2 (by decide +kernel)
  have hstop : pairImage.primary.range.stop ≤ maxWord := by decide
  have hroom : pair.HasRoom pairImage.primary.platform := by decide
  obtain ⟨r, hr, hjustified⟩ :=
    (resolveSlice_justified hvalid pairImage hstop {}).resolve_right fun h => h.narrow hroom
  have hsites : (resolveSlice pairImage pairImage.primary pair {}).toOption.map
      (fun r => r.located.map Located.offset) = some [21, 23] := by decide +kernel
  rw [hr] at hsites
  exact ⟨r, hr, hjustified, Option.some.inj hsites⟩

end Resolution
end BinaryPatch
