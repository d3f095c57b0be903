/-
# Signatures that match more than once

A signature that has more than one hit is ambiguous, and no site is chosen between them. A hit is
less than a match: a search passes over a match whose run overlaps an occurrence of the run taken
before. So a site found by its signature is the only hit (`Scanner.OnlyHit`), but the signature
may match at other places of the slice, or match unpatched where the site was found by the form
after patching.

`resolveSlice_direct_unambiguous_iff` says when the site stands for the only match
(`Scanner.Unambiguous`): exactly when no other match was passed over. None ever is of a pattern whose
run cannot overlap itself (`Pattern.not_passedOver_of_unbordered`).
-/

import BinaryPatch.Proofs.Report

namespace BinaryPatch

/-! ## Matches and hits -/

namespace Scanner

variable {s : Scanner} {b : ByteArray} {range : Span} {start : Nat}

/-- The signature matches at one place of a range alone; or it matches nowhere there, and the form
after patching does at one place alone. -/
def Unambiguous (s : Scanner) (b : ByteArray) (range : Span) (start : Nat) : Prop :=
  s.pattern.OnlyMatch b range start ∨
    (∀ start', ¬ s.pattern.MatchesIn b range start') ∧
      ∃ q, s.applied = some q ∧ q.OnlyMatch b range start

/-- The same, of hits in place of matches. -/
def OnlyHit (s : Scanner) (b : ByteArray) (range : Span) (start : Nat) : Prop :=
  (∀ start', start' ∈ s.pattern.hits b range ↔ start' = start) ∨
    (∀ start', start' ∉ s.pattern.hits b range) ∧
      ∃ q, s.applied = some q ∧ q.longestRun.bytes ≠ [] ∧
        ∀ start', start' ∈ q.hits b range ↔ start' = start

/-- No match of the signature but one at this place is passed over; and unless there is one, none
of the form after patching is. -/
def NoneHidden (s : Scanner) (b : ByteArray) (range : Span) (start : Nat) : Prop :=
  (∀ start', s.pattern.PassedOver b range start' → start' = start) ∧
    (¬ s.pattern.MatchesIn b range start → ∀ q, s.applied = some q →
      ∀ start', q.PassedOver b range start' → start' = start)

/-- **A signature with one site has one hit.** -/
theorem Sound.onlyHit_of_signatureSites (hs : s.Sound) {survey : Survey} {site : Nat}
    (h : survey.signatureSites s = [site]) (hsite : site < maxWord) :
    s.anchor ≤ site ∧ s.OnlyHit survey.buffer survey.slice.range (site - s.anchor) := by
  obtain ⟨hanchor, hhits⟩ := Survey.hits_of_signatureSites hs h hsite
  refine ⟨hanchor, ?_⟩
  rcases hhits with hhits | ⟨hnil, q, hq, hrun, hhits⟩
  · exact .inl fun start' => by rw [hhits, List.mem_singleton]
  · refine .inr ⟨fun start' => ?_, q, hq, hrun, fun start' => ?_⟩
    · rw [hnil]
      exact List.not_mem_nil
    · rw [hhits, List.mem_singleton]

/-- A match that is no hit is passed over. -/
theorem passedOver_of_not_mem_hits {p : Pattern} (hrun : p.longestRun.bytes ≠ [])
    (hmatch : p.MatchesIn b range start) (hhit : start ∉ p.hits b range) :
    p.PassedOver b range start := by
  by_contra hpassed
  exact hhit ((Pattern.mem_hits_iff hrun).2 ⟨hmatch, hpassed⟩)

/-- A pattern with one hit matches there alone exactly when no other match is passed over. -/
theorem onlyMatch_iff {p : Pattern} (hrun : p.longestRun.bytes ≠ [])
    (hhits : ∀ start', start' ∈ p.hits b range ↔ start' = start) :
    p.OnlyMatch b range start ↔ ∀ start', p.PassedOver b range start' → start' = start := by
  have hstart := ((Pattern.mem_hits_iff hrun).1 ((hhits start).2 rfl)).1
  constructor
  · exact fun h start' hpassed => h.2 start' hpassed.1
  · refine fun h => ⟨hstart, fun start' hmatch => ?_⟩
    by_cases hhit : start' ∈ p.hits b range
    · exact (hhits start').1 hhit
    · exact h start' (passedOver_of_not_mem_hits hrun hmatch hhit)

/-- **The only hit is the only match exactly when no other match is passed over.** -/
theorem OnlyHit.unambiguous_iff (hs : s.Sound) (h : s.OnlyHit b range start) :
    s.Unambiguous b range start ↔ s.NoneHidden b range start := by
  rcases h with hhits | ⟨hnone, q, hq, hrun, hhits⟩
  · have hstart := ((Pattern.mem_hits_iff hs.run_ne_nil).1 ((hhits start).2 rfl)).1
    constructor
    · rintro (honly | ⟨hnone, -⟩)
      · exact ⟨(onlyMatch_iff hs.run_ne_nil hhits).1 honly, fun hnot => absurd hstart hnot⟩
      · exact absurd hstart (hnone start)
    · exact fun hhidden => .inl ((onlyMatch_iff hs.run_ne_nil hhits).2 hhidden.1)
  · -- every match of the signature is passed over
    have hall : ∀ start', s.pattern.MatchesIn b range start' →
        s.pattern.PassedOver b range start' := fun start' hmatch =>
      passedOver_of_not_mem_hits hs.run_ne_nil hmatch (hnone start')
    constructor
    · rintro (honly | ⟨hnever, q', hq', honly⟩)
      · exact ⟨fun start' hpassed => honly.2 start' hpassed.1, fun hnot => absurd honly.1 hnot⟩
      · refine ⟨fun start' hpassed => absurd hpassed.1 (hnever start'), fun _ q'' hq'' => ?_⟩
        obtain rfl : q' = q'' := Option.some.inj (hq'.symm.trans hq'')
        exact fun start' hpassed => honly.2 start' hpassed.1
    · rintro ⟨hsignature, happlied⟩
      by_cases hstart : s.pattern.MatchesIn b range start
      · exact .inl ⟨hstart, fun start' hmatch => hsignature start' (hall start' hmatch)⟩
      · refine .inr ⟨fun start' hmatch => ?_, q, hq,
          (onlyMatch_iff hrun hhits).2 (happlied hstart q hq)⟩
        exact hstart (hsignature start' (hall start' hmatch) ▸ hmatch)

end Scanner

namespace Resolution

/-! ## Sites found by their signature -/

/-- **A site found by its signature is the only hit, and it is the only match exactly when no other
match is passed over.** -/
theorem resolveSlice_direct_unambiguous_iff {c : Catalog} (h : c.validate = .ok ()) {image : Image}
    {slice : Slice} (hstop : slice.range.stop ≤ maxWord) {limits : Limits} {r : Report}
    (hr : resolveSlice image slice c limits = .ok r) {x : Located} (hx : x ∈ r.located)
    (hdirect : x.method = .directSignature) :
    ∃ v sc, c.variant? x.targetId slice.platform = some v ∧ v.scanner? = .ok (some sc) ∧
      sc.anchor ≤ x.offset ∧ sc.OnlyHit image.buffer slice.range (x.offset - sc.anchor) ∧
        (sc.Unambiguous image.buffer slice.range (x.offset - sc.anchor) ↔
          sc.NoneHidden image.buffer slice.range (x.offset - sc.anchor)) := by
  have hsound := Catalog.sound_of_validate h
  obtain ⟨fs, hresolved⟩ := resolved_of_resolveSlice hsound hr
  obtain ⟨t, ht, found, hfound, rfl⟩ := hresolved.mem_located_iff.1 hx
  obtain ⟨v, scanner, hv, hscanner, hvsound, hscsound, hjust⟩ := hresolved.justifies ht hfound
  obtain ⟨-, sc, rfl, hsites⟩ := hjust.direct hdirect
  have hsc := hscsound sc rfl
  obtain ⟨hanchor, honly⟩ := hsc.onlyHit_of_signatureSites hsites
    (lt_maxWord_of_fits hvsound hstop hjust.inside)
  exact ⟨v, sc, hv, hscanner, hanchor, honly, honly.unambiguous_iff hsc⟩

/-- One target, with a signature whose run `AA AA` overlaps itself. -/
def stutter : Catalog where
  version := "1"
  targets := [{
    id := "A"
    category := .stereo
    variants := {
      linux := some {
        expected := [0xAA]
        signature := some { pattern := "AA AA ??", anchor := 2 }
        payload := .bytes [0xBB] } } }]

/-- A file of 24 bytes, in which the signature matches at 20 and at 21. -/
def stutterImage : Image where
  store.bytes := ⟨#[0x7F, 0x45, 0x4C, 0x46, 2, 1, 1, 0, 0, 0, 0, 0, 0, 0, 0, 0, 3, 0, 0, 0,
    0xAA, 0xAA, 0xAA, 0]⟩
  buffer := ⟨#[0x7F, 0x45, 0x4C, 0x46, 2, 1, 1, 0, 0, 0, 0, 0, 0, 0, 0, 0, 3, 0, 0, 0,
    0xAA, 0xAA, 0xAA, 0]⟩
  container := ⟨.elf, 0, .whole .linux .identity 24, []⟩

/-- The file is one that can be loaded. -/
example : Image.load stutterImage.store = .ok stutterImage := rfl

theorem validate_stutter : stutter.validate = .ok () :=
  Catalog.validate_eq_ok_iff.2 (by decide +kernel)

theorem located_stutter :
    ∃ r, resolveSlice stutterImage stutterImage.primary stutter {} = .ok r ∧
      r.located = [⟨"A", 22, .directSignature, none, some 22⟩] :=
  exists_ok_of_toOption_map (by decide +kernel)

/-- The signature matches at both places. -/
theorem not_unambiguous_stutter {v : Variant} (hv : stutter.variant? "A" .linux = some v)
    {sc : Scanner} (hsc : v.scanner? = .ok (some sc)) (start : Nat) :
    ¬ sc.Unambiguous stutterImage.buffer stutterImage.primary.range start := by
  cases hv
  obtain rfl : (⟨[some 0xAA, some 0xAA, none], none, 2⟩ : Scanner) = sc :=
    Option.some.inj (Except.ok.inj (Eq.trans (by decide +kernel) hsc))
  have hmatch : ∀ k ∈ [20, 21], Pattern.MatchesIn [some 0xAA, some 0xAA, none]
      stutterImage.buffer stutterImage.primary.range k := by
    unfold Pattern.MatchesIn
    decide +kernel
  have hfirst := hmatch 20 (by decide)
  rintro (⟨-, honly⟩ | ⟨hnever, -⟩)
  · have hsecond := hmatch 21 (by decide)
    exact absurd ((honly 20 hfirst).trans (honly 21 hsecond).symm) (by decide)
  · exact hnever 20 hfirst

/-- **A signature that matches at two places may resolve its target.** The second match is passed
over, as its run overlaps that of the first. -/
theorem not_resolveSlice_direct_unambiguous :
    ¬ ∀ (c : Catalog) (image : Image) (slice : Slice) (limits : Limits) (r : Report) (x : Located),
      c.validate = .ok () → slice.range.stop ≤ maxWord →
        resolveSlice image slice c limits = .ok r → x ∈ r.located →
          x.method = .directSignature →
            ∃ v sc, c.variant? x.targetId slice.platform = some v ∧
              v.scanner? = .ok (some sc) ∧
                sc.Unambiguous image.buffer slice.range (x.offset - sc.anchor) := by
  intro hall
  obtain ⟨r, hr, hlocated⟩ := located_stutter
  obtain ⟨v, sc, hv, hsc, hunambiguous⟩ := hall stutter stutterImage stutterImage.primary {} r _
    validate_stutter (by decide) hr (hlocated ▸ List.mem_singleton_self _) rfl
  exact not_unambiguous_stutter hv hsc _ hunambiguous

/-- In this file a match is hidden, by `resolveSlice_direct_unambiguous_iff`. -/
theorem resolveSlice_stutter_hidden :
    ∃ r, resolveSlice stutterImage stutterImage.primary stutter {} = .ok r ∧
      ∃ x ∈ r.located, ∃ v sc, stutter.variant? x.targetId .linux = some v ∧
        v.scanner? = .ok (some sc) ∧
          sc.OnlyHit stutterImage.buffer stutterImage.primary.range (x.offset - sc.anchor) ∧
            ¬ sc.NoneHidden stutterImage.buffer stutterImage.primary.range
              (x.offset - sc.anchor) := by
  obtain ⟨r, hr, hlocated⟩ := located_stutter
  have hx : (⟨"A", 22, .directSignature, none, some 22⟩ : Located) ∈ r.located :=
    hlocated ▸ List.mem_singleton_self _
  obtain ⟨v, sc, hv, hsc, -, honly, hiff⟩ := resolveSlice_direct_unambiguous_iff
    validate_stutter (by decide) hr hx rfl
  exact ⟨r, hr, _, hx, v, sc, hv, hsc, honly, fun hhidden =>
    not_unambiguous_stutter hv hsc _ (hiff.2 hhidden)⟩

end Resolution
end BinaryPatch
