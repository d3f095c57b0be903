/-
# The number of places that a report names

An ambiguity is reported with some of its places only, up to a cap. The cap also bounds how many
places a search collects, but never below two, which is enough to tell none, one and several apart.
So two resolutions that differ in their caps alone come to the same outcome, and what they report
differs in the length of these lists (`Resolution.resolveSlice_capped`).

The proof follows a resolution step by step. Each step of the one with the lower cap does to what is
`capped` what the same step of the other does to the whole.
-/

import BinaryPatch.Proofs.Locate
import BinaryPatch.Proofs.Report

namespace BinaryPatch

/-! ## What is left out -/

/-- The obstacle with at most `n` places of an ambiguity. -/
def Obstacle.capped (n : Nat) : Obstacle → Obstacle
  | .ambiguous offsets => .ambiguous (offsets.take n)
  | obstacle => obstacle

/-- The attempt with at most `n` places of an ambiguity. -/
def Attempt.capped (n : Nat) (a : Attempt) : Attempt := { a with obstacle := a.obstacle.capped n }

/-- The failure with at most `n` places of each ambiguity. -/
def Unresolved.capped (n : Nat) (u : Unresolved) : Unresolved :=
  { u with attempts := u.attempts.map (Attempt.capped n) }

/-- The verdict with at most `n` places of each ambiguity. A site has none. -/
def Verdict.capped (n : Nat) : Verdict → Verdict
  | .located site => .located site
  | .unresolved target => .unresolved (target.capped n)

/-- The report with at most `n` places of each ambiguity. -/
def Report.capped (n : Nat) (r : Report) : Report :=
  { r with verdicts := r.verdicts.map (Verdict.capped n) }

@[simp]
theorem Report.located_capped (n : Nat) (r : Report) : (r.capped n).located = r.located := by
  unfold located capped
  rw [List.filterMap_map]
  exact List.filterMap_congr fun v _ => by cases v <;> rfl

@[simp]
theorem Report.unresolved_capped (n : Nat) (r : Report) :
    (r.capped n).unresolved = r.unresolved.map (Unresolved.capped n) := by
  unfold unresolved capped
  rw [List.filterMap_map, List.map_filterMap]
  exact List.filterMap_congr fun v _ => by cases v <;> rfl

/-- What is known of a target, with at most `n` places of each ambiguity. -/
def Finding.capped (n : Nat) (f : Finding) : Finding :=
  { f with attempts := f.attempts.map (Attempt.capped n) }

/-- What is known of each target, with at most `n` places of each ambiguity. -/
def Findings.capped (n : Nat) (fs : Findings) : Findings :=
  fs.map fun (id, f) => (id, f.capped n)

/-! ## One target -/

namespace Survey

variable {s : Survey} {v : Variant} {n : Nat}

/-- The survey with another cap. -/
def withCap (s : Survey) (n : Nat) : Survey :=
  { s with limits := { s.limits with maxCandidates := n } }

@[simp]
theorem slice_withCap (s : Survey) (n : Nat) : (s.withCap n).slice = s.slice := rfl

@[simp]
theorem fits_withCap (s : Survey) (n offset length : Nat) :
    (s.withCap n).fits offset length = s.fits offset length := rfl

@[simp]
theorem window_withCap (s : Survey) (v : Variant) (n centre : Nat) :
    (s.withCap n).window v centre = s.window v centre := rfl

@[simp]
theorem centres_withCap (s : Survey) (v : Variant) (n : Nat) (derived : List Candidate) :
    (s.withCap n).centres v derived = s.centres v derived := rfl

theorem hitLimit_withCap_le (h : n ≤ s.limits.maxCandidates) :
    (s.withCap n).hitLimit ≤ s.hitLimit :=
  Nat.max_le.2 ⟨Nat.le_trans h (Nat.le_max_left _ _), two_le_hitLimit s⟩

theorem le_hitLimit_withCap (s : Survey) (n : Nat) : n ≤ (s.withCap n).hitLimit :=
  Nat.le_max_left _ _

theorem scan_withCap (h : n ≤ s.limits.maxCandidates) (p : Pattern) (anchor : Nat) :
    (s.withCap n).scan p anchor = (s.scan p anchor).take (s.withCap n).hitLimit := by
  have hlimit : 1 ≤ (s.withCap n).hitLimit := Nat.le_of_succ_le (two_le_hitLimit _)
  unfold scan
  rw [← List.map_take, Pattern.take_find _ _ _ hlimit (hitLimit_withCap_le h)]
  rfl

theorem signatureSites_withCap (h : n ≤ s.limits.maxCandidates) (sc : Scanner) :
    (s.withCap n).signatureSites sc = (s.signatureSites sc).take (s.withCap n).hitLimit := by
  unfold signatureSites
  rw [scan_withCap h]
  obtain ⟨limit, hlimit⟩ := Nat.exists_eq_add_of_le' (two_le_hitLimit (s.withCap n))
  cases s.scan sc.pattern sc.anchor with
  | nil =>
    rw [List.take_nil]
    cases sc.applied with
    | none => rw [List.take_nil]
    | some applied => exact scan_withCap h applied sc.anchor
  | cons site rest =>
    rw [hlimit, List.take_succ_cons]

/-- Places that are told apart with a lower cap, too. -/
theorem take_capped (h : n ≤ s.limits.maxCandidates) (offsets : List Nat) :
    (s.withCap n).capped (offsets.take (s.withCap n).hitLimit) = (s.capped offsets).take n := by
  unfold capped
  rw [List.take_take, List.take_take, Nat.min_eq_left h]
  exact congrArg (List.take · offsets) (Nat.min_eq_left (le_hitLimit_withCap s n))

theorem direct_withCap (h : n ≤ s.limits.maxCandidates) (scanner : Option Scanner) :
    (s.withCap n).direct v scanner = (s.direct v scanner).mapError (Obstacle.capped n) := by
  cases scanner with
  | none => rfl
  | some sc =>
    have hcapped := take_capped h (s.signatureSites sc)
    obtain ⟨limit, hlimit⟩ := Nat.exists_eq_add_of_le' (two_le_hitLimit (s.withCap n))
    rw [hlimit] at hcapped
    rw [direct, direct, signatureSites_withCap h, hlimit]
    cases hsites : s.signatureSites sc with
    | nil => rfl
    | cons site rest =>
      cases rest with
      | nil =>
        rw [List.take_succ_cons, List.take_nil]
        dsimp only
        rw [fits_withCap]
        split <;> rfl
      | cons other rest =>
        rw [hsites] at hcapped
        exact congrArg (fun offsets => Except.error (Obstacle.ambiguous offsets)) hcapped

/-- No obstacle to a derivation names places of an ambiguity. -/
theorem mapError_derive (n : Nat) (scanner : Option Scanner) (derived : List Candidate) :
    (s.derive v scanner derived).mapError (Obstacle.capped n) = s.derive v scanner derived := by
  unfold derive
  split
  · rfl
  · split
    · rfl
    · split <;> rfl

theorem windowHits_withCap (h : n ≤ s.limits.maxCandidates) (needle : List UInt8) {window : Span}
    (hwindow : s.slice.range.start ≤ window.start) :
    (s.withCap n).windowHits v needle window =
      (s.windowHits v needle window).take (s.withCap n).hitLimit := by
  obtain ⟨hascending, hstart⟩ := Bytes.ascending_find s.buffer needle window s.hitLimit
  unfold windowHits
  rw [← Bytes.filter_take_of_pairwise hascending fun p hp q _ hle hq => ?_,
    Bytes.take_find _ _ _ (hitLimit_withCap_le h)]
  · rfl
  · -- only the end of the slice can be passed
    have := (fits_iff.1 hq).2
    exact fits_iff.2 ⟨Nat.le_trans hwindow (hstart p hp), by omega⟩

theorem nearby_withCap (h : n ≤ s.limits.maxCandidates) (centre : Nat) :
    (s.withCap n).nearby v centre = (s.nearby v centre).take (s.withCap n).hitLimit := by
  have hwindow : s.slice.range.start ≤ (s.window v centre).start := Nat.le_max_right _ _
  obtain ⟨limit, hlimit⟩ := Nat.exists_eq_add_of_le' (two_le_hitLimit (s.withCap n))
  simp only [nearby, window_withCap, windowHits_withCap h v.expected hwindow]
  cases s.windowHits v v.expected (s.window v centre) with
  | nil =>
    rw [List.take_nil]
    cases v.payload.fixed? with
    | none => rw [List.take_nil]
    | some bytes => exact windowHits_withCap h bytes hwindow
  | cons hit rest => rw [hlimit, List.take_succ_cons]

theorem searchAround_withCap (h : n ≤ s.limits.maxCandidates) (centres : List Nat) :
    (s.withCap n).searchAround v centres =
      (s.searchAround v centres).mapError (Obstacle.capped n) := by
  induction centres with
  | nil => rfl
  | cons centre rest ih =>
    have hcapped := take_capped h (s.nearby v centre)
    obtain ⟨limit, hlimit⟩ := Nat.exists_eq_add_of_le' (two_le_hitLimit (s.withCap n))
    rw [hlimit] at hcapped
    rw [searchAround, searchAround, nearby_withCap h, hlimit]
    cases hhits : s.nearby v centre with
    | nil => exact ih
    | cons hit rest =>
      cases rest with
      | nil => rfl
      | cons other rest =>
        rw [hhits] at hcapped
        exact congrArg (fun offsets => Except.error (Obstacle.ambiguous offsets)) hcapped

theorem fuzzy_withCap (h : n ≤ s.limits.maxCandidates) (derived : List Candidate) :
    (s.withCap n).fuzzy v derived = (s.fuzzy v derived).mapError (Obstacle.capped n) := by
  simp only [fuzzy, centres_withCap]
  split
  · rfl
  · exact searchAround_withCap h _

/-- Whether the third phase is left out does not depend on the places of the ambiguity. -/
theorem fuzzyUnless_withCap (h : n ≤ s.limits.maxCandidates) (derived : List Candidate)
    (first : Obstacle) :
    (s.withCap n).fuzzyUnless v derived (first.capped n) =
      (s.fuzzyUnless v derived first).mapError (Obstacle.capped n) := by
  cases first with
  | ambiguous offsets => rfl
  | _ => exact fuzzy_withCap h derived

/-- **A search with a lower cap finds the same, and keeps the same attempts but for the places that
it leaves out.** -/
theorem locate_withCap (h : n ≤ s.limits.maxCandidates) (scanner : Option Scanner)
    (derived : List Candidate) :
    (s.withCap n).locate v scanner derived = (s.locate v scanner derived).capped n := by
  have hderive : (s.withCap n).derive v scanner derived =
      (s.derive v scanner derived).mapError (Obstacle.capped n) := (mapError_derive n ..).symm
  unfold locate
  rw [direct_withCap h, hderive]
  cases s.direct v scanner with
  | ok site => rfl
  | error first =>
    cases s.derive v scanner derived with
    | ok c => rfl
    | error second =>
      have hfuzzy := fuzzyUnless_withCap (v := v) h derived first
      dsimp only [Except.mapError]
      rw [hfuzzy]
      cases s.fuzzyUnless v derived first <;> rfl

end Survey

/-! ## Cross-checking -/

namespace Findings

variable (n : Nat) (fs : Findings)

@[simp]
theorem get?_capped (id : String) : (fs.capped n).get? id = (fs.get? id).map (Finding.capped n) :=
  get?_map (fun _ => Finding.capped n) fs id

@[simp]
theorem found?_capped (id : String) : (fs.capped n).found? id = fs.found? id := by
  unfold found?
  rw [get?_capped]
  cases fs.get? id <;> rfl

@[simp]
theorem put_capped (id : String) (f : Finding) :
    (fs.capped n).put id (f.capped n) = (fs.put id f).capped n := by
  unfold put capped
  rw [List.map_cons, List.filter_map]
  rfl

theorem withdraw_capped (id : String) {reason : Obstacle} (h : reason.capped n = reason) :
    (fs.capped n).withdraw id reason = (fs.withdraw id reason).capped n := by
  unfold withdraw capped
  rw [List.map_map, List.map_map]
  refine List.map_congr_left fun entry _ => ?_
  obtain ⟨name, f⟩ := entry
  dsimp only [Function.comp]
  split
  · simp [Finding.withdraw, Finding.capped, Attempt.capped, h]
  · rfl

@[simp]
theorem violation?_capped (r : Rule) : (fs.capped n).violation? r = fs.violation? r := by
  simp [violation?]

/-- A violation names no places. -/
theorem capped_of_violation? {r : Rule} {reason : Obstacle} (h : fs.violation? r = some reason) :
    reason.capped n = reason := by
  unfold violation? at h
  obtain ⟨source, -, h⟩ := Option.bind_eq_some_iff.1 h
  obtain ⟨dest, -, h⟩ := Option.bind_eq_some_iff.1 h
  dsimp only at h
  split at h
  · cases h
  · cases h
    rfl

theorem foldl_withdrawEnds_capped {violations : List (Rule × Obstacle)}
    (h : ∀ v ∈ violations, v.2.capped n = v.2) :
    violations.foldl withdrawEnds (fs.capped n) = (violations.foldl withdrawEnds fs).capped n := by
  induction violations generalizing fs with
  | nil => rfl
  | cons v rest ih =>
    have hv := h v List.mem_cons_self
    have hends : (fs.capped n).withdrawEnds v = (fs.withdrawEnds v).capped n := by
      unfold withdrawEnds
      rw [withdraw_capped n fs _ hv, withdraw_capped n _ _ hv]
    rw [List.foldl_cons, List.foldl_cons, hends,
      ih _ fun w hw => h w (List.mem_cons_of_mem v hw)]

@[simp]
theorem withdrawViolated_capped (rules : List Rule) :
    (fs.capped n).withdrawViolated rules = (fs.withdrawViolated rules).capped n := by
  rw [withdrawViolated_eq, withdrawViolated_eq]
  simp only [violation?_capped]
  refine foldl_withdrawEnds_capped n fs fun v hv => ?_
  obtain ⟨r, -, hr⟩ := List.mem_filterMap.1 hv
  obtain ⟨reason, hreason, rfl⟩ := Option.map_eq_some_iff.1 hr
  exact fs.capped_of_violation? n hreason

@[simp]
theorem lostSource?_capped (f : Finding) :
    (fs.capped n).lostSource? (f.capped n) = fs.lostSource? f := by
  simp only [lostSource?, found?_capped]
  rfl

@[simp]
theorem withdrawOrphans_capped :
    (fs.capped n).withdrawOrphans = fs.withdrawOrphans.capped n := by
  unfold withdrawOrphans
  conv_lhs => unfold capped
  conv_rhs => unfold capped
  rw [List.map_map, List.map_map]
  refine List.map_congr_left fun entry _ => ?_
  obtain ⟨id, f⟩ := entry
  dsimp only [Function.comp]
  have := lostSource?_capped n fs f
  unfold capped at this
  rw [this]
  split
  · simp [Finding.withdraw, Finding.capped, Attempt.capped, Obstacle.capped]
  · rfl

@[simp]
theorem settle_capped : (fs.capped n).settle = fs.settle.capped n := by
  have hany : ∀ fs : Findings,
      ((fs.capped n).any fun entry => ((fs.capped n).lostSource? entry.2).isSome) =
        fs.any fun entry => (fs.lostSource? entry.2).isSome := fun fs => by
    change (List.map _ fs).any _ = _
    rw [List.any_map]
    congr 1
    funext entry
    exact congrArg Option.isSome (lostSource?_capped n fs entry.2)
  fun_induction settle fs with
  | case1 fs h ih => rw [settle, dif_pos ((hany fs).trans h), withdrawOrphans_capped, ih]
  | case2 fs h => rw [settle, dif_neg fun h' => h ((hany fs).symm.trans h')]

@[simp]
theorem crossCheck_capped (rules : List Rule) :
    (fs.capped n).crossCheck rules = (fs.crossCheck rules).capped n := by
  simp [crossCheck]

end Findings

/-! ## Reports -/

namespace Resolution

@[simp]
theorem candidates_capped (n : Nat) (rules : List Rule) (fs : Findings) (id : String) :
    candidates rules (fs.capped n) id = candidates rules fs id := by
  simp [candidates]

theorem locateAll_withCap {s : Survey} {n : Nat} (h : n ≤ s.limits.maxCandidates)
    (rules : List Rule) (fs : Findings) (ts : List Target) :
    locateAll (s.withCap n) rules (fs.capped n) ts =
      (locateAll s rules fs ts).map (Findings.capped n) := by
  induction ts generalizing fs with
  | nil => rfl
  | cons t rest ih =>
    rw [locateAll, locateAll, Survey.slice_withCap]
    cases t.variants.get? s.slice.platform with
    | none => exact ih fs
    | some v =>
      dsimp only
      cases v.scanner? with
      | error fault => rfl
      | ok scanner =>
        simp [Survey.locate_withCap h, ih]

@[simp]
theorem verdict_capped (n : Nat) (slice : Slice) (id : String) (f : Finding) :
    verdict slice id (f.capped n) = (verdict slice id f).capped n := by
  have hfound : (f.capped n).found = f.found := rfl
  unfold verdict
  rw [hfound]
  cases f.found <;> rfl

@[simp]
theorem verdicts_capped (n : Nat) (slice : Slice) (fs : Findings) (ts : List Target) :
    verdicts slice (fs.capped n) ts = (verdicts slice fs ts).map (Verdict.capped n) := by
  induction ts generalizing fs with
  | nil => rfl
  | cons t rest ih =>
    rw [verdicts, verdicts, Findings.get?_capped]
    cases fs.get? t.id with
    | none => exact ih fs
    | some f =>
      have hfilter : (fs.capped n).filter (fun entry => entry.1 != t.id) =
          Findings.capped n (fs.filter fun entry => entry.1 != t.id) := by
        unfold Findings.capped
        rw [List.filter_map]
        rfl
      simp [hfilter, ih]

/-- **A lower cap only shortens what a report says of ambiguities.** -/
theorem resolveSlice_withCap (image : Image) (slice : Slice) (c : Catalog) {limits : Limits}
    {n : Nat} (h : n ≤ limits.maxCandidates) :
    resolveSlice image slice c { limits with maxCandidates := n } =
      (resolveSlice image slice c limits).map (Report.capped n) := by
  unfold resolveSlice
  cases c.derivationOrder slice.platform with
  | error fault => rfl
  | ok order =>
    have hlocate := locateAll_withCap (s := ⟨image.buffer, slice, limits⟩) h
      (c.rulesFor slice.platform) [] order
    have hsurvey : (Survey.mk image.buffer slice limits).withCap n =
      ⟨image.buffer, slice, { limits with maxCandidates := n }⟩ := rfl
    have hnil : Findings.capped n [] = [] := rfl
    rw [hsurvey, hnil] at hlocate
    dsimp only
    rw [hlocate]
    cases locateAll ⟨image.buffer, slice, limits⟩ (c.rulesFor slice.platform) [] order with
    | error fault => rfl
    | ok fs =>
      simp [Except.map, Report.capped]

/-- **The cap never changes an outcome.** Two resolutions that differ in it alone find the same
sites. Their failures are the same, too, but for the places of each ambiguity: with the lower cap,
these are the first of those with the higher one. Where a target leaves no room, neither yields a
report. -/
theorem resolveSlice_capped {c : Catalog} (h : c.validate = .ok ()) (image : Image) (slice : Slice)
    {limits limits' : Limits} (hwindow : limits.fuzzyWindow = limits'.fuzzyWindow)
    (hcap : limits.maxCandidates ≤ limits'.maxCandidates) :
    (∃ r r', resolveSlice image slice c limits = .ok r ∧
      resolveSlice image slice c limits' = .ok r' ∧
      r.located = r'.located ∧
      r.unresolved = r'.unresolved.map (Unresolved.capped limits.maxCandidates) ∧
      r = r'.capped limits.maxCandidates) ∨
        BreaksOff image slice c limits ∧ BreaksOff image slice c limits' := by
  have hsound := Catalog.sound_of_validate h
  refine (or_breaksOff hsound fun hroom => ?_).imp_right
    fun h => ⟨h, breaksOff hsound h.narrow⟩
  obtain ⟨-, -, _, -, -, hr', -⟩ := exists_resolved hsound image hroom limits'
  have hr := resolveSlice_withCap image slice c hcap
  have hlimits : { limits' with maxCandidates := limits.maxCandidates } = limits := by
    rw [← hwindow]
  rw [hlimits, hr'] at hr
  exact ⟨_, _, hr, hr', by simp, by simp, rfl⟩

/-- A file that holds the signature of the first target three times. -/
def tripleImage : Image where
  store.bytes := ⟨#[0x7F, 0x45, 0x4C, 0x46, 2, 1, 1, 0, 0, 0, 0, 0, 0, 0, 0, 0, 3, 0, 0, 0,
    0xAA, 0xBB, 0xCC, 0xAA, 0xBB, 0xCC, 0xAA, 0xBB, 0xCC]⟩
  buffer := ⟨#[0x7F, 0x45, 0x4C, 0x46, 2, 1, 1, 0, 0, 0, 0, 0, 0, 0, 0, 0, 3, 0, 0, 0,
    0xAA, 0xBB, 0xCC, 0xAA, 0xBB, 0xCC, 0xAA, 0xBB, 0xCC]⟩
  container := ⟨.elf, 0, .whole .linux .identity 29, []⟩

/-- With a cap of one, the report on this file names the first of the three places. -/
theorem resolveSlice_triple_capped :
    ∃ r r', resolveSlice tripleImage tripleImage.primary pair { maxCandidates := 1 } = .ok r ∧
      resolveSlice tripleImage tripleImage.primary pair {} = .ok r' ∧
      r = r'.capped 1 ∧
      r'.unresolved.flatMap (·.attempts.map Attempt.obstacle) =
        [.ambiguous [21, 24, 27], .noDerivation, .skippedAfterAmbiguity,
          .noSignature, .noDerivation, .noWindow] ∧
      r.unresolved.flatMap (·.attempts.map Attempt.obstacle) =
        [.ambiguous [21], .noDerivation, .skippedAfterAmbiguity,
          .noSignature, .noDerivation, .noWindow] := by
  have hvalid : pair.validate = .ok () := Catalog.validate_eq_ok_iff.2 (by decide +kernel)
  have hwindow : ({ maxCandidates := 1 } : Limits).fuzzyWindow = ({} : Limits).fuzzyWindow := rfl
  have hroom : pair.HasRoom tripleImage.primary.platform := by decide
  obtain ⟨r, r', hr, hr', -, -, hcapped⟩ := (resolveSlice_capped hvalid tripleImage
    tripleImage.primary hwindow (by decide)).resolve_right fun h => h.1.narrow hroom
  have hall : (resolveSlice tripleImage tripleImage.primary pair {}).toOption.map
      (·.unresolved.flatMap (·.attempts.map Attempt.obstacle)) =
        some [.ambiguous [21, 24, 27], .noDerivation, .skippedAfterAmbiguity,
          .noSignature, .noDerivation, .noWindow] := by decide +kernel
  have hfirst : (resolveSlice tripleImage tripleImage.primary pair
      { maxCandidates := 1 }).toOption.map
      (·.unresolved.flatMap (·.attempts.map Attempt.obstacle)) =
        some [.ambiguous [21], .noDerivation, .skippedAfterAmbiguity,
          .noSignature, .noDerivation, .noWindow] := by decide +kernel
  rw [hr'] at hall
  rw [hr] at hfirst
  exact ⟨r, r', hr, hr', hcapped, Option.some.inj hall, Option.some.inj hfirst⟩

end Resolution
end BinaryPatch
