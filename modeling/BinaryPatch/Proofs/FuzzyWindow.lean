/-
# What a window holds

The third phase searches the window of each centre: first for the expected bytes, and for the fixed
payload if these stand nowhere in it (`Survey.Sought`). The search takes occurrences that do not
overlap, so of the places at which the bytes stand and a site fits (`Survey.SiteIn`)

| what the search yields | what that says of these places |
| --- | --- |
| nothing | there is none |
| one hit | the hit is the first, and every other one starts inside it |

A hit is then the only place exactly when the bytes do not stand again inside it
(`Resolution.resolveSlice_fuzzy_only_iff`), which bytes without a border never do.

A window ends where a site ends that starts at the far end of what may be searched. Bytes that are
shorter than the site may therefore stand farther behind the centre than before it
(`Survey.siteIn_window_iff`), by as much as they are shorter (`Resolution.resolveSlice_fuzzy_reach`).
-/

import BinaryPatch.Proofs.ReportCap
import BinaryPatch.Proofs.RuleOrder

namespace BinaryPatch
namespace Survey

/-! ## Places in a window -/

/-- The bytes stand at a place of a window, and a site fits there. -/
def SiteIn (s : Survey) (v : Variant) (needle : List UInt8) (window : Span) (q : Nat) : Prop :=
  Bytes.StandsIn s.buffer needle window q ∧ s.fits q v.siteLength = true

/-- There is one such place in the window. -/
def OnlySite (s : Survey) (v : Variant) (needle : List UInt8) (window : Span) (q : Nat) : Prop :=
  s.SiteIn v needle window q ∧ ∀ q', s.SiteIn v needle window q' → q' = q

/-- The bytes stand again inside themselves. -/
def Recurs (s : Survey) (v : Variant) (needle : List UInt8) (window : Span) (q : Nat) : Prop :=
  ∃ q', s.SiteIn v needle window q' ∧ q < q' ∧ q' < q + needle.length

/-- What a search of a window without a limit finds. -/
def sitesIn (s : Survey) (v : Variant) (needle : List UInt8) (window : Span) : List Nat :=
  (Bytes.occurrencesIn s.buffer needle window).filter fun hit => s.fits hit v.siteLength

variable {s : Survey} {v : Variant}

section Window

variable {needle : List UInt8} {window : Span} {hit q : Nat} (hneedle : needle ≠ [])
include hneedle

theorem siteIn_of_mem_sitesIn (h : q ∈ s.sitesIn v needle window) :
    s.SiteIn v needle window q := by
  obtain ⟨hmem, hfits⟩ := List.mem_filter.1 h
  exact ⟨Bytes.standsIn_of_mem_occurrencesIn hneedle hmem, hfits⟩

variable (hwindow : s.slice.range.start ≤ window.start)
include hwindow

/-- **Every place is reached over by a place that is found.** A site fits there too, as it only
could reach over the end of the slice. -/
theorem SiteIn.exists_mem_sitesIn (h : s.SiteIn v needle window q) :
    ∃ p ∈ s.sitesIn v needle window, p ≤ q ∧ q < p + needle.length := by
  obtain ⟨hstands, hfits⟩ := h
  obtain ⟨p, hp, hle, hover⟩ := hstands.exists_mem_occurrencesIn hneedle
  have hstart := (Bytes.standsIn_of_mem_occurrencesIn hneedle hp).1
  have hstop := (fits_iff.1 hfits).2
  have hfits' : s.fits p v.siteLength = true := fits_iff.2 ⟨by omega, by omega⟩
  exact ⟨p, List.mem_filter.2 ⟨hp, hfits'⟩, hle, hover⟩

/-- A limit cuts the list of places short. -/
theorem windowHits_eq_take :
    s.windowHits v needle window = (s.sitesIn v needle window).take s.hitLimit := by
  have hascending : (Bytes.occurrencesIn s.buffer needle window).Pairwise (· ≤ ·) :=
    (Bytes.pairwise_occurrencesIn ..).imp Nat.le_of_lt
  unfold windowHits sitesIn
  rw [Bytes.find_eq_take hneedle, Bytes.filter_take_of_pairwise hascending]
  intro p hp q _ hle hq
  have hstart := (Bytes.standsIn_of_mem_occurrencesIn hneedle hp).1
  have hstop := (fits_iff.1 hq).2
  exact fits_iff.2 ⟨by omega, by omega⟩

theorem siteIn_of_mem_windowHits (h : q ∈ s.windowHits v needle window) :
    s.SiteIn v needle window q := by
  rw [windowHits_eq_take hneedle hwindow] at h
  exact siteIn_of_mem_sitesIn hneedle (List.mem_of_mem_take h)

/-- **A search that finds nothing leaves nothing.** -/
theorem windowHits_eq_nil_iff :
    s.windowHits v needle window = [] ↔ ∀ q, ¬ s.SiteIn v needle window q := by
  constructor
  · intro hnil q hq
    have hlimit := two_le_hitLimit s
    rw [windowHits_eq_take hneedle hwindow, List.take_eq_nil_iff] at hnil
    obtain ⟨p, hp, -⟩ := hq.exists_mem_sitesIn hneedle hwindow
    rw [hnil.resolve_left (by omega)] at hp
    exact List.not_mem_nil hp
  · intro hnone
    refine List.eq_nil_iff_forall_not_mem.2 fun q hq => hnone q ?_
    exact siteIn_of_mem_windowHits hneedle hwindow hq

/-- **Every place starts inside the only hit.** -/
theorem of_windowHits_eq_singleton (h : s.windowHits v needle window = [hit]) :
    s.SiteIn v needle window hit ∧
      ∀ q, s.SiteIn v needle window q → hit ≤ q ∧ q < hit + needle.length := by
  have hmem : hit ∈ s.windowHits v needle window := h ▸ List.mem_singleton_self hit
  refine ⟨siteIn_of_mem_windowHits hneedle hwindow hmem, fun q hq => ?_⟩
  -- at least two places are collected, so one that is left is the only one found
  rw [windowHits_eq_take hneedle hwindow, Bytes.take_eq_singleton_iff (two_le_hitLimit s)] at h
  obtain ⟨p, hp, hover⟩ := hq.exists_mem_sitesIn hneedle hwindow
  rw [h, List.mem_singleton] at hp
  exact hp ▸ hover

/-- **The only hit is the only place exactly when the bytes do not stand again inside it.** -/
theorem onlySite_iff_not_recurs (h : s.windowHits v needle window = [hit]) :
    s.OnlySite v needle window hit ↔ ¬ s.Recurs v needle window hit := by
  obtain ⟨hsite, hothers⟩ := of_windowHits_eq_singleton hneedle hwindow h
  constructor
  · rintro ⟨-, honly⟩ ⟨q, hq, hlt, -⟩
    have := honly q hq
    omega
  · intro hnot
    refine ⟨hsite, fun q hq => ?_⟩
    obtain ⟨hle, hover⟩ := hothers q hq
    by_contra hne
    exact hnot ⟨q, hq, by omega, hover⟩

omit hneedle hwindow in
/-- Bytes without a border do not stand inside themselves. -/
theorem not_recurs_of_unbordered (h : Bytes.Unbordered needle) (hsite : s.SiteIn v needle window hit) :
    ¬ s.Recurs v needle window hit := by
  rintro ⟨q, hq, hlt, hover⟩
  have hfirst := hsite.1.2.2
  have hsecond := hq.1.2.2
  have := h.le_of_holdsAt hfirst hsecond hlt
  omega

end Window

/-! ## What is sought around a centre -/

/-- The bytes that decide what a window yields: those expected, or the fixed payload if these stand
nowhere in the window. -/
inductive Sought (s : Survey) (v : Variant) (centre : Nat) : List UInt8 → Prop
  | expected : Sought s v centre v.expected
  | payload {bytes : List UInt8} : v.payload.fixed? = some bytes →
      (∀ q, ¬ s.SiteIn v v.expected (s.window v centre) q) → Sought s v centre bytes

/-- The place lies so near to a centre that its window reaches it. Behind the centre the window
reaches farther, by as much as the bytes are shorter than the site. -/
def InReach (s : Survey) (v : Variant) (needle : List UInt8) (centre q : Nat) : Prop :=
  centre ≤ q + s.limits.fuzzyWindow ∧
    q ≤ centre + s.limits.fuzzyWindow + (v.siteLength - needle.length)

/-- A window lies inside the slice. -/
theorem start_le_start_window (s : Survey) (v : Variant) (centre : Nat) :
    s.slice.range.start ≤ (s.window v centre).start := Nat.le_max_right _ _

namespace Sought

variable {centre : Nat} {needle : List UInt8} (hv : v.Sound) (h : s.Sought v centre needle)
include hv h

theorem ne_nil : needle ≠ [] := by
  cases h with
  | expected => exact hv.expected_ne_nil
  | payload hfixed _ =>
    have hpayload := hv.payload
    cases hbytes : v.payload with
    | slot length =>
      rw [hbytes] at hfixed
      cases hfixed
    | bytes bytes =>
      rw [hbytes] at hfixed hpayload
      cases hfixed
      exact hpayload.1

omit hv in
theorem length_le : needle.length ≤ v.siteLength := by
  cases h with
  | expected => exact Nat.le_max_left _ _
  | payload hfixed _ => exact Variant.length_le_siteLength hfixed

/-- **The places in the window of a centre** are those within reach at which the bytes stand and a
site fits. -/
theorem siteIn_window_iff {q : Nat} :
    s.SiteIn v needle (s.window v centre) q ↔
      s.InReach v needle centre q ∧ Bytes.holdsAt s.buffer q needle = true ∧
        s.fits q v.siteLength = true := by
  have hpos := List.length_pos_of_ne_nil (h.ne_nil hv)
  have hlength := h.length_le
  unfold SiteIn Bytes.StandsIn InReach window
  dsimp only
  constructor
  · rintro ⟨⟨hstart, hstop, hold⟩, hfits⟩
    exact ⟨⟨by omega, by omega⟩, hold, hfits⟩
  · rintro ⟨⟨hbefore, hbehind⟩, hold, hfits⟩
    obtain ⟨hlo, hhi⟩ := fits_iff.1 hfits
    exact ⟨⟨by omega, by omega, hold⟩, hfits⟩

end Sought

/-- **What a window yields are the hits of the bytes that are sought in it.** -/
theorem exists_sought (hv : v.Sound) (centre : Nat) :
    ∃ needle, s.Sought v centre needle ∧
      s.nearby v centre = s.windowHits v needle (s.window v centre) := by
  have hwindow := s.start_le_start_window v centre
  unfold nearby
  dsimp only
  split
  · rename_i bytes hnil hfixed
    have hnone := (windowHits_eq_nil_iff hv.expected_ne_nil hwindow).1 hnil
    exact ⟨bytes, .payload hfixed hnone, rfl⟩
  · exact ⟨v.expected, .expected, rfl⟩

/-! ## Which windows are searched -/

theorem mem_centres_iff {derived : List Candidate} {centre : Nat} :
    centre ∈ s.centres v derived ↔ (∃ c ∈ derived, c.offset = centre) ∨
      ∃ va, v.lastKnown = some va ∧ s.slice.toOffset va.toNat = some centre := by
  unfold centres
  rw [List.mem_eraseDups, List.mem_append, List.mem_map, Option.mem_toList,
    Option.bind_eq_some_iff]

/-- **An ambiguity that is reported of a window names places of one window.** -/
theorem of_searchAround_ambiguous {centres : List Nat} {offsets : List Nat}
    (h : s.searchAround v centres = .error (.ambiguous offsets)) :
    ∃ centre ∈ centres, ∀ q ∈ offsets, q ∈ s.nearby v centre := by
  induction centres with
  | nil => cases h
  | cons centre rest ih =>
    unfold searchAround at h
    split at h
    · obtain ⟨other, hother, hall⟩ := ih h
      exact ⟨other, List.mem_cons_of_mem centre hother, hall⟩
    · cases h
    · cases h
      exact ⟨centre, List.mem_cons_self, fun q hq => List.mem_of_mem_take hq⟩

variable {scanner : Option Scanner} {derived : List Candidate}

/-- A site found in a window is the only hit there. -/
theorem exists_centre_of_found {found : Found}
    (h : (s.locate v scanner derived).found = some found) (hfuzzy : found.method = .fuzzySearch) :
    ∃ centre ∈ s.centres v derived, s.nearby v centre = [found.offset] := by
  unfold locate at h
  split at h
  · cases h
    cases hfuzzy
  · split at h
    · cases h
      cases hfuzzy
    · split at h
      · rename_i hit hhit
        cases h
        obtain ⟨-, hhit⟩ := of_fuzzyUnless hhit
        unfold fuzzy at hhit
        split at hhit
        · cases hhit
        · obtain ⟨centre, hfirst, honly⟩ := searchAround_eq_ok_iff.1 hhit
          exact ⟨centre, List.mem_of_find?_eq_some hfirst, honly⟩
      · cases h

/-- The places named by an ambiguity of the third phase are hits in one window. -/
theorem exists_centre_of_attempt {offsets : List Nat}
    (h : ⟨.fuzzyWindow, .ambiguous offsets⟩ ∈ (s.locate v scanner derived).attempts) :
    ∃ centre ∈ s.centres v derived, ∀ q ∈ offsets, q ∈ s.nearby v centre := by
  unfold locate at h
  split at h
  · cases h
  · split at h
    · simp at h
    · split at h
      · simp at h
      · rename_i third hthird
        have hreason : Obstacle.ambiguous offsets = third := by simpa using h
        rw [← hreason] at hthird
        unfold fuzzyUnless at hthird
        split at hthird
        · cases hthird
        · unfold fuzzy at hthird
          split at hthird
          · cases hthird
          · exact of_searchAround_ambiguous hthird

end Survey

/-! ## Attempts -/

/-- **Cross-checking leaves the attempts of the three phases as they were.** -/
theorem Findings.mem_attempts_of_crossCheck {fs : Findings} {rules : List Rule}
    (hrules : ∀ r ∈ rules, r.source ≠ r.dest) (hrooted : fs.Rooted) {id : String} {f : Finding}
    (hf : (fs.crossCheck rules).get? id = some f) {a : Attempt} (ha : a ∈ f.attempts)
    (hphase : a.phase ≠ .crossValidation) :
    ∃ g, fs.get? id = some g ∧ a ∈ g.attempts := by
  obtain ⟨g, reasons, hg, rfl, -⟩ := exists_reasons hrules hrooted hf
  rw [attempts_withdrawFor, List.mem_append] at ha
  rcases ha with ha | ha
  · exact ⟨g, hg, ha⟩
  · obtain ⟨reason, -, rfl⟩ := List.mem_map.1 ha
    exact absurd rfl hphase

namespace Resolution

/-! ## Reports -/

/-- The centre of a window in which a target is looked for: a place where a rule leads from a target
already found, or the last known address. -/
inductive Centre (s : Survey) (rules : List Rule) (fs : Findings) (id : String) (v : Variant)
    (centre : Nat) : Prop
  | derived {r : Rule} {origin : Found} : r ∈ rules → r.dest = id →
      fs.found? r.source = some origin → (centre : Int) = origin.offset + r.delta.toInt →
        Centre s rules fs id v centre
  | lastKnown {va : UInt64} : v.lastKnown = some va → s.slice.toOffset va.toNat = some centre →
      Centre s rules fs id v centre

/-- Without rules the last known address is the only centre. -/
theorem Centre.toOffset_eq {s : Survey} {fs : Findings} {id : String} {v : Variant} {centre : Nat}
    (h : Centre s [] fs id v centre) {va : UInt64} (hva : v.lastKnown = some va) :
    s.slice.toOffset va.toNat = some centre := by
  cases h with
  | derived hr => exact absurd hr List.not_mem_nil
  | lastKnown hva' hoffset =>
    obtain rfl := Option.some.inj (hva.symm.trans hva')
    exact hoffset

theorem centre_of_mem_centres {s : Survey} {rules : List Rule} {fs : Findings} {id : String}
    {v : Variant} {centre : Nat} (h : centre ∈ s.centres v (candidates rules fs id)) :
    Centre s rules fs id v centre := by
  rcases Survey.mem_centres_iff.1 h with ⟨candidate, hmem, rfl⟩ | ⟨va, hva, hoffset⟩
  · obtain ⟨r, hr, hdest, -, origin, horigin, hplace⟩ := of_mem_candidates hmem
    exact .derived hr hdest horigin hplace
  · exact .lastKnown hva hoffset

/-- A window in which a target is looked for, and the bytes that decide what it yields. -/
structure Searched (s : Survey) (c : Catalog) (fs : Findings) (id : String) (v : Variant)
    (centre : Nat) (needle : List UInt8) : Prop where
  variant : c.variant? id s.slice.platform = some v
  sound : v.Sound
  sought : s.Sought v centre needle
  centre : Centre s (c.rulesFor s.slice.platform) fs id v centre

namespace Resolved

variable {s : Survey} {c : Catalog} {fs : Findings} {r : Report} (h : Resolved s c fs r)
include h

/-- **A site found in a window is the only hit there** of the bytes that are sought. -/
theorem exists_searched_of_located {x : Located} (hx : x ∈ r.located)
    (hfuzzy : x.method = .fuzzySearch) :
    ∃ v centre needle, Searched s c fs x.targetId v centre needle ∧
      s.windowHits v needle (s.window v centre) = [x.offset] := by
  obtain ⟨t, ht, found, hfound, rfl⟩ := h.mem_located_iff.1 hx
  obtain ⟨v, scanner, hvariant, -, hsound, -, hget⟩ := h.exists_locate ht
  have hlocate := (Findings.withdrawnFrom_crossCheck fs _).found _ _ hfound
  rw [Findings.found?_of_get? hget] at hlocate
  obtain ⟨centre, hcentre, honly⟩ := Survey.exists_centre_of_found hlocate hfuzzy
  obtain ⟨needle, hsought, hhits⟩ := Survey.exists_sought hsound centre
  exact ⟨v, centre, needle, ⟨hvariant, hsound, hsought, centre_of_mem_centres hcentre⟩,
    hhits.symm.trans honly⟩

/-- **The places that an ambiguity of the third phase names are hits in one window** of the bytes
that are sought. -/
theorem exists_searched_of_attempt {u : Unresolved} (hu : u ∈ r.unresolved) {offsets : List Nat}
    (ha : ⟨.fuzzyWindow, .ambiguous offsets⟩ ∈ u.attempts) :
    ∃ v centre needle, Searched s c fs u.targetId v centre needle ∧
      ∀ q ∈ offsets, q ∈ s.windowHits v needle (s.window v centre) := by
  obtain ⟨t, ht, f, hf, -, rfl⟩ := h.mem_unresolved_iff.1 hu
  obtain ⟨g, hg, hmem⟩ := Findings.mem_attempts_of_crossCheck h.rules_ne h.solves.rooted hf ha nofun
  obtain ⟨v, scanner, hvariant, -, hsound, -, hget⟩ := h.exists_locate ht
  obtain rfl := Option.some.inj (hg.symm.trans hget)
  obtain ⟨centre, hcentre, hall⟩ := Survey.exists_centre_of_attempt hmem
  obtain ⟨needle, hsought, hhits⟩ := Survey.exists_sought hsound centre
  refine ⟨v, centre, needle, ⟨hvariant, hsound, hsought, centre_of_mem_centres hcentre⟩, ?_⟩
  rw [← hhits]
  exact hall

end Resolved

/-- What a site found in a window says of the window: every place at which the bytes stand starts
inside the site, and there is no other exactly when the bytes do not stand again inside
themselves. -/
structure FirstSite (s : Survey) (v : Variant) (centre : Nat) (needle : List UInt8)
    (offset : Nat) : Prop where
  inside : ∀ q, s.SiteIn v needle (s.window v centre) q → offset ≤ q ∧ q < offset + needle.length
  only : s.OnlySite v needle (s.window v centre) offset ↔
    ¬ s.Recurs v needle (s.window v centre) offset
  unbordered : Bytes.Unbordered needle → s.OnlySite v needle (s.window v centre) offset

/-- **A site found in a window is the only place for it there exactly when the bytes do not stand
again inside themselves**, as bytes without a border never do. There is a report unless a target
leaves no room. -/
theorem resolveSlice_fuzzy_only_iff {c : Catalog} (h : c.validate = .ok ()) (image : Image)
    (slice : Slice) (limits : Limits) :
    (∃ order fs r, c.derivationOrder slice.platform = .ok order ∧
      locateAll ⟨image.buffer, slice, limits⟩ (c.rulesFor slice.platform) [] order = .ok fs ∧
      resolveSlice image slice c limits = .ok r ∧
      ∀ x ∈ r.located, x.method = .fuzzySearch → ∃ v centre needle,
        Searched ⟨image.buffer, slice, limits⟩ c fs x.targetId v centre needle ∧
          FirstSite ⟨image.buffer, slice, limits⟩ v centre needle x.offset) ∨
      BreaksOff image slice c limits := by
  have hsound := Catalog.sound_of_validate h
  refine or_breaksOff hsound fun hroom => ?_
  obtain ⟨order, fs, r, horder, hfs, hr, hresolved⟩ := exists_resolved hsound image hroom limits
  refine ⟨order, fs, r, horder, hfs, hr, fun x hx hfuzzy => ?_⟩
  obtain ⟨v, centre, needle, hsearched, hhits⟩ := hresolved.exists_searched_of_located hx hfuzzy
  have hneedle := hsearched.sought.ne_nil hsearched.sound
  have hwindow := Survey.start_le_start_window ⟨image.buffer, slice, limits⟩ v centre
  obtain ⟨hsite, hothers⟩ := Survey.of_windowHits_eq_singleton hneedle hwindow hhits
  have honly := Survey.onlySite_iff_not_recurs hneedle hwindow hhits
  refine ⟨v, centre, needle, hsearched, hothers, honly, fun hborder => honly.2 ?_⟩
  exact Survey.not_recurs_of_unbordered hborder hsite

/-- **The third phase stays near its centres**, and so do the places that it reports as ambiguous:
before a centre by the size of the window, and behind it by that much and by what the site is longer
than the bytes. There is a report unless a target leaves no room. -/
theorem resolveSlice_fuzzy_reach {c : Catalog} (h : c.validate = .ok ()) (image : Image)
    (slice : Slice) (limits : Limits) :
    (∃ order fs r, c.derivationOrder slice.platform = .ok order ∧
      locateAll ⟨image.buffer, slice, limits⟩ (c.rulesFor slice.platform) [] order = .ok fs ∧
      resolveSlice image slice c limits = .ok r ∧
      (∀ x ∈ r.located, x.method = .fuzzySearch → ∃ v centre needle,
        Searched ⟨image.buffer, slice, limits⟩ c fs x.targetId v centre needle ∧
          Survey.InReach ⟨image.buffer, slice, limits⟩ v needle centre x.offset) ∧
      ∀ u ∈ r.unresolved, ∀ offsets, ⟨.fuzzyWindow, .ambiguous offsets⟩ ∈ u.attempts →
        ∃ v centre needle,
          Searched ⟨image.buffer, slice, limits⟩ c fs u.targetId v centre needle ∧
            ∀ q ∈ offsets, Survey.InReach ⟨image.buffer, slice, limits⟩ v needle centre q) ∨
      BreaksOff image slice c limits := by
  have hsound := Catalog.sound_of_validate h
  refine or_breaksOff hsound fun hroom => ?_
  obtain ⟨order, fs, r, horder, hfs, hr, hresolved⟩ := exists_resolved hsound image hroom limits
  have hreach : ∀ {id v centre needle q},
      Searched ⟨image.buffer, slice, limits⟩ c fs id v centre needle →
        q ∈ Survey.windowHits ⟨image.buffer, slice, limits⟩ v needle
          (Survey.window ⟨image.buffer, slice, limits⟩ v centre) →
            Survey.InReach ⟨image.buffer, slice, limits⟩ v needle centre q := by
    intro id v centre needle q hsearched hq
    have hneedle := hsearched.sought.ne_nil hsearched.sound
    have hwindow := Survey.start_le_start_window ⟨image.buffer, slice, limits⟩ v centre
    have hsite := Survey.siteIn_of_mem_windowHits hneedle hwindow hq
    exact ((hsearched.sought.siteIn_window_iff hsearched.sound).1 hsite).1
  refine ⟨order, fs, r, horder, hfs, hr, fun x hx hfuzzy => ?_, fun u hu offsets ha => ?_⟩
  · obtain ⟨v, centre, needle, hsearched, hhits⟩ := hresolved.exists_searched_of_located hx hfuzzy
    exact ⟨v, centre, needle, hsearched, hreach hsearched (hhits ▸ List.mem_singleton_self _)⟩
  · obtain ⟨v, centre, needle, hsearched, hhits⟩ := hresolved.exists_searched_of_attempt hu ha
    exact ⟨v, centre, needle, hsearched, fun q hq => hreach hsearched (hhits q hq)⟩

/-! ### Bytes that stand inside themselves -/

/-- One target of two equal bytes, with the address it had. -/
def doubled : Catalog where
  version := "1"
  targets := [{
    id := "A"
    category := .stereo
    variants := {
      linux := some {
        expected := [0xAA, 0xAA]
        payload := .bytes [0xBB, 0xBB]
        lastKnown := some 20 } } }]

/-- A file of 24 bytes, in which the two bytes stand at 20 and at 21. -/
def doubledImage : Image where
  store.bytes := ⟨#[0x7F, 0x45, 0x4C, 0x46, 2, 1, 1, 0, 0, 0, 0, 0, 0, 0, 0, 0, 3, 0, 0, 0,
    0xAA, 0xAA, 0xAA, 0]⟩
  buffer := ⟨#[0x7F, 0x45, 0x4C, 0x46, 2, 1, 1, 0, 0, 0, 0, 0, 0, 0, 0, 0, 3, 0, 0, 0,
    0xAA, 0xAA, 0xAA, 0]⟩
  container := ⟨.elf, 0, .whole .linux .identity 24, []⟩

/-- The file is one that can be loaded. -/
example : Image.load doubledImage.store = .ok doubledImage := rfl

theorem validate_doubled : doubled.validate = .ok () :=
  Catalog.validate_eq_ok_iff.2 (by decide +kernel)

theorem hasRoom_doubled : doubled.HasRoom doubledImage.primary.platform := by decide

theorem located_doubled :
    ∃ r, resolveSlice doubledImage doubledImage.primary doubled {} = .ok r ∧
      r.located = [⟨"A", 20, .fuzzySearch, none, some 20⟩] :=
  exists_ok_of_toOption_map (by decide +kernel)

/-- The survey of the file. -/
def doubledSurvey : Survey := ⟨doubledImage.buffer, doubledImage.primary, {}⟩

/-- In the window of the only centre the two bytes stand at both places. -/
theorem siteIn_doubled {fs : Findings} {v : Variant} {centre : Nat} {needle : List UInt8}
    (h : Searched doubledSurvey doubled fs "A" v centre needle) :
    doubledSurvey.SiteIn v needle (doubledSurvey.window v centre) 20 ∧
      doubledSurvey.SiteIn v needle (doubledSurvey.window v centre) 21 := by
  obtain ⟨hv, -, hsought, hcentre⟩ := h
  cases hv
  obtain rfl : 20 = centre := Option.some.inj (Centre.toOffset_eq hcentre rfl)
  have hboth : ∀ k ∈ [20, 21], doubledSurvey.SiteIn
      ⟨[0xAA, 0xAA], none, .bytes [0xBB, 0xBB], some 20⟩ [0xAA, 0xAA]
        (doubledSurvey.window ⟨[0xAA, 0xAA], none, .bytes [0xBB, 0xBB], some 20⟩ 20) k := by
    unfold Survey.SiteIn Bytes.StandsIn
    decide +kernel
  cases hsought with
  | expected => exact ⟨hboth 20 (by decide), hboth 21 (by decide)⟩
  | payload _ hnone => exact absurd (hboth 20 (by decide)) (hnone 20)

/-- **A site found in a window need not be the only place for it.** The search goes on behind the
first place, and passes over the one that starts inside it. -/
theorem not_resolveSlice_fuzzy_only :
    ¬ ∀ (c : Catalog) (image : Image) (slice : Slice) (limits : Limits) (order : List Target)
      (fs : Findings) (r : Report) (x : Located), c.validate = .ok () →
        c.derivationOrder slice.platform = .ok order →
          locateAll ⟨image.buffer, slice, limits⟩ (c.rulesFor slice.platform) [] order = .ok fs →
            resolveSlice image slice c limits = .ok r → x ∈ r.located →
              x.method = .fuzzySearch → ∃ v centre needle,
                Searched ⟨image.buffer, slice, limits⟩ c fs x.targetId v centre needle ∧
                  Survey.OnlySite ⟨image.buffer, slice, limits⟩ v needle
                    (Survey.window ⟨image.buffer, slice, limits⟩ v centre) x.offset := by
  intro hall
  obtain ⟨order, fs, _, horder, hfs, -, -⟩ := exists_resolved
    (Catalog.sound_of_validate validate_doubled) doubledImage hasRoom_doubled {}
  obtain ⟨r, hr, hlocated⟩ := located_doubled
  obtain ⟨v, centre, needle, hsearched, -, honly⟩ := hall _ _ _ _ order fs r _ validate_doubled
    horder hfs hr (hlocated ▸ List.mem_singleton_self _) rfl
  have hsecond := honly 21 (siteIn_doubled hsearched).2
  exact absurd hsecond (by decide)

/-- In this file the bytes stand again inside the site, by `resolveSlice_fuzzy_only_iff`. -/
theorem resolveSlice_doubled_recurs :
    ∃ fs r, resolveSlice doubledImage doubledImage.primary doubled {} = .ok r ∧
      ∃ x ∈ r.located, x.method = .fuzzySearch ∧ ∃ v centre needle,
        Searched doubledSurvey doubled fs x.targetId v centre needle ∧
          doubledSurvey.Recurs v needle (doubledSurvey.window v centre) x.offset := by
  obtain ⟨order, fs, r', horder, hfs, hr', hsites⟩ :=
    (resolveSlice_fuzzy_only_iff validate_doubled doubledImage doubledImage.primary {}).resolve_right
      fun h => h.narrow hasRoom_doubled
  obtain ⟨r, hr, hlocated⟩ := located_doubled
  obtain rfl := Except.ok.inj (hr.symm.trans hr')
  have hx : (⟨"A", 20, .fuzzySearch, none, some 20⟩ : Located) ∈ r.located :=
    hlocated ▸ List.mem_singleton_self _
  obtain ⟨v, centre, needle, hsearched, hfirst⟩ := hsites _ hx rfl
  refine ⟨fs, r, hr, _, hx, rfl, v, centre, needle, hsearched, ?_⟩
  by_contra hnot
  have hsecond := (hfirst.only.2 hnot).2 21 (siteIn_doubled hsearched).2
  exact absurd hsecond (by decide)

/-! ### Bytes shorter than their site -/

/-- One slot of four bytes, of which the first is expected. -/
def roomy : Catalog where
  version := "1"
  targets := [{
    id := "A"
    category := .injection
    variants := {
      linux := some {
        expected := [0xAA]
        payload := .slot 4
        lastKnown := some 20 } } }]

/-- A file of 28 bytes that holds the slot at 23. -/
def roomyImage : Image where
  store.bytes := ⟨#[0x7F, 0x45, 0x4C, 0x46, 2, 1, 1, 0, 0, 0, 0, 0, 0, 0, 0, 0, 3, 0, 0, 0,
    0, 0, 0, 0xAA, 0, 0, 0, 0]⟩
  buffer := ⟨#[0x7F, 0x45, 0x4C, 0x46, 2, 1, 1, 0, 0, 0, 0, 0, 0, 0, 0, 0, 3, 0, 0, 0,
    0, 0, 0, 0xAA, 0, 0, 0, 0]⟩
  container := ⟨.elf, 0, .whole .linux .identity 28, []⟩

/-- The file is one that can be loaded. -/
example : Image.load roomyImage.store = .ok roomyImage := rfl

/-- Windows of two bytes on each side of their centre. -/
def tight : Limits where
  fuzzyWindow := 2

theorem validate_roomy : roomy.validate = .ok () :=
  Catalog.validate_eq_ok_iff.2 (by decide +kernel)

theorem hasRoom_roomy : roomy.HasRoom roomyImage.primary.platform := by decide

theorem located_roomy :
    ∃ r, resolveSlice roomyImage roomyImage.primary roomy tight = .ok r ∧
      r.located = [⟨"A", 23, .fuzzySearch, none, some 23⟩] :=
  exists_ok_of_toOption_map (by decide +kernel)

theorem centre_roomy {fs : Findings} {v : Variant} {centre : Nat}
    (hv : roomy.variant? "A" .linux = some v)
    (h : Centre ⟨roomyImage.buffer, roomyImage.primary, tight⟩ (roomy.rulesFor .linux) fs "A" v
      centre) : 20 = centre := by
  cases hv
  exact Option.some.inj (Centre.toOffset_eq h rfl)

/-- **A site may be found farther behind every centre than a window is wide.** -/
theorem not_resolveSlice_fuzzy_within :
    ¬ ∀ (c : Catalog) (image : Image) (slice : Slice) (limits : Limits) (order : List Target)
      (fs : Findings) (r : Report) (x : Located), c.validate = .ok () →
        c.derivationOrder slice.platform = .ok order →
          locateAll ⟨image.buffer, slice, limits⟩ (c.rulesFor slice.platform) [] order = .ok fs →
            resolveSlice image slice c limits = .ok r → x ∈ r.located →
              x.method = .fuzzySearch → ∃ v centre,
                c.variant? x.targetId slice.platform = some v ∧
                  Centre ⟨image.buffer, slice, limits⟩ (c.rulesFor slice.platform) fs x.targetId v
                    centre ∧
                    centre ≤ x.offset + limits.fuzzyWindow ∧
                      x.offset ≤ centre + limits.fuzzyWindow := by
  intro hall
  obtain ⟨order, fs, _, horder, hfs, -, -⟩ := exists_resolved
    (Catalog.sound_of_validate validate_roomy) roomyImage hasRoom_roomy tight
  obtain ⟨r, hr, hlocated⟩ := located_roomy
  obtain ⟨v, centre, hv, hcentre, -, hbehind⟩ := hall _ _ _ _ order fs r _ validate_roomy horder
    hfs hr (hlocated ▸ List.mem_singleton_self _) rfl
  obtain rfl := centre_roomy hv hcentre
  exact absurd hbehind (by decide)

/-- In this file the slot lies three bytes behind its centre, by `resolveSlice_fuzzy_reach`. -/
theorem resolveSlice_roomy_reach :
    ∃ fs r, resolveSlice roomyImage roomyImage.primary roomy tight = .ok r ∧
      ∃ x ∈ r.located, x.method = .fuzzySearch ∧ ∃ v needle,
        Searched ⟨roomyImage.buffer, roomyImage.primary, tight⟩ roomy fs x.targetId v 20 needle ∧
          Survey.InReach ⟨roomyImage.buffer, roomyImage.primary, tight⟩ v needle 20 x.offset ∧
            20 + tight.fuzzyWindow < x.offset := by
  obtain ⟨order, fs, r', horder, hfs, hr', hsites, -⟩ :=
    (resolveSlice_fuzzy_reach validate_roomy roomyImage roomyImage.primary tight).resolve_right
      fun h => h.narrow hasRoom_roomy
  obtain ⟨r, hr, hlocated⟩ := located_roomy
  obtain rfl := Except.ok.inj (hr.symm.trans hr')
  have hx : (⟨"A", 23, .fuzzySearch, none, some 23⟩ : Located) ∈ r.located :=
    hlocated ▸ List.mem_singleton_self _
  obtain ⟨v, centre, needle, hsearched, hreach⟩ := hsites _ hx rfl
  obtain rfl := centre_roomy hsearched.variant hsearched.centre
  exact ⟨fs, r, hr, _, hx, rfl, v, needle, hsearched, hreach, by decide⟩

end Resolution
end BinaryPatch
