/-
# A slice is looked at alone

A file can hold the code of several platforms, and a resolution has the whole buffer before it. It
reads the buffer in five places:

| what is read | where |
| --- | --- |
| the signature | the range of the slice |
| the form it has after patching | the range of the slice |
| a signature around a derived place | where the whole pattern fits into the range |
| expected bytes and fixed payload at a derived place | where a site fits into the range |
| expected bytes and fixed payload in a window | the window, inside the range |

So a buffer of the same size that agrees with the first in the range of a slice
(`Bytes.AgreeOn`) gives the same answers in each of them, even where it would match across the
edge, and the report on the slice is the same (`Resolution.resolveSlice_confined`). Whether the
search breaks off depends on the catalog alone.
-/

import BinaryPatch.Proofs.Report

namespace BinaryPatch
namespace Bytes

/-- Buffers of one size that hold the same bytes in a range. -/
structure AgreeOn (range : Span) (a b : ByteArray) : Prop where
  size : a.size = b.size
  bytes : ∀ k, range.start ≤ k → k < range.stop → a[k]? = b[k]?

namespace AgreeOn

variable {range sub : Span} {a b : ByteArray} (h : AgreeOn range a b)
include h

theorem mono (hsub : ∀ k, sub.start ≤ k → k < sub.stop → range.start ≤ k ∧ k < range.stop) :
    AgreeOn sub a b where
  size := h.size
  bytes k hstart hstop :=
    have hk := hsub k hstart hstop
    h.bytes k hk.1 hk.2

theorem clip (size : Nat) : AgreeOn (range.clip size) a b := by
  refine h.mono fun k hstart hstop => ?_
  unfold Span.clip at hstart hstop
  dsimp only at hstart hstop
  omega

omit h in
theorem from_le {pos next stop : Nat} (h : AgreeOn ⟨pos, stop⟩ a b) (hle : pos ≤ next) :
    AgreeOn ⟨next, stop⟩ a b := by
  refine h.mono fun k hstart hstop => ?_
  dsimp only at hstart hstop ⊢
  omega

theorem holdsAt_eq {offset : Nat} {w : List UInt8} (hstart : range.start ≤ offset)
    (hstop : offset + w.length ≤ range.stop) : holdsAt a offset w = holdsAt b offset w :=
  holdsAt_congr h.size fun k hk hk' => h.bytes k (by omega) (by omega)

end AgreeOn

variable {range : Span} {a b : ByteArray}

/-- **A search looks at nothing outside its range.** -/
theorem occurrences_congr {needle : List UInt8} {stop pos : Nat} (h : AgreeOn ⟨pos, stop⟩ a b) :
    occurrences a needle stop pos = occurrences b needle stop pos := by
  fun_induction occurrences a needle stop pos with
  | case1 pos hend => rw [occurrences, if_pos hend]
  | case2 pos hend hold ih =>
    rw [h.holdsAt_eq (Nat.le_refl pos) (by dsimp only; omega)] at hold
    have hrest := ih (h.from_le (Nat.le_add_right _ _))
    rw [hrest, occurrences.eq_def b needle stop pos, if_neg hend, if_pos hold]
  | case3 pos hend hold ih =>
    rw [h.holdsAt_eq (Nat.le_refl pos) (by dsimp only; omega)] at hold
    have hrest := ih (h.from_le (Nat.le_add_right _ _))
    rw [hrest, occurrences.eq_def b needle stop pos, if_neg hend, if_neg hold]

theorem find_congr (h : AgreeOn range a b) (needle : List UInt8) (limit : Nat) :
    find a needle range limit = find b needle range limit := by
  have hsame : occurrences a needle (range.clip a.size).stop (range.clip a.size).start =
      occurrences b needle (range.clip a.size).stop (range.clip a.size).start :=
    occurrences_congr (h.clip a.size)
  unfold find
  dsimp only
  rw [sweep_eq_take, sweep_eq_take, ← h.size, hsame]

end Bytes

namespace Pattern

variable {range : Span} {a b : ByteArray} {p : Pattern}

/-- A pattern looks at the places it covers. -/
theorem matchesAt_congr {offset : Nat} (h : Bytes.AgreeOn range a b)
    (hstart : range.start ≤ offset) (hstop : offset + p.length ≤ range.stop) :
    p.matchesAt a offset = p.matchesAt b offset := by
  rw [Bool.eq_iff_iff, matchesAt_iff, matchesAt_iff, h.size]
  refine and_congr_right fun _ => forall₃_congr fun k c hk => ?_
  have hlt := (List.getElem?_eq_some_iff.1 hk).1
  rw [h.bytes (offset + k) (by omega) (by omega)]

theorem matchesIn_congr (h : Bytes.AgreeOn range a b) (offset : Nat) :
    p.MatchesIn a range offset ↔ p.MatchesIn b range offset := by
  unfold MatchesIn
  refine and_congr_right fun hstart => and_congr_right fun hstop => ?_
  rw [matchesAt_congr h hstart hstop]

theorem candidate_congr {region : Span} (h : Bytes.AgreeOn region a b) (lead : Nat) :
    p.candidate a lead region = p.candidate b lead region := by
  funext pos
  refine Option.ext fun start => ?_
  rw [candidate_eq_some_iff, candidate_eq_some_iff]
  refine and_congr_right fun _ => and_congr_right fun hstart => and_congr_right fun hstop => ?_
  rw [matchesAt_congr h hstart hstop]

/-- **What is found of a pattern in a range depends on the range alone.** -/
theorem find_congr (h : Bytes.AgreeOn range a b) (limit : Nat) :
    p.find a range limit = p.find b range limit := by
  have hclip := h.clip a.size
  have hruns : Bytes.occurrences a p.longestRun.bytes (range.clip a.size).stop
      (range.clip a.size).start = Bytes.occurrences b p.longestRun.bytes
        (range.clip a.size).stop (range.clip a.size).start := Bytes.occurrences_congr hclip
  unfold find
  dsimp only
  rw [Bytes.sweep_eq_take, Bytes.sweep_eq_take, ← h.size, candidate_congr hclip, hruns]

end Pattern

namespace Survey

/-- The same survey of another buffer. -/
def withBuffer (s : Survey) (b : ByteArray) : Survey := { s with buffer := b }

@[simp]
theorem slice_withBuffer (s : Survey) (b : ByteArray) : (s.withBuffer b).slice = s.slice := rfl

@[simp]
theorem window_withBuffer (s : Survey) (b : ByteArray) (v : Variant) (centre : Nat) :
    (s.withBuffer b).window v centre = s.window v centre := rfl

@[simp]
theorem centres_withBuffer (s : Survey) (b : ByteArray) (v : Variant) (derived : List Candidate) :
    (s.withBuffer b).centres v derived = s.centres v derived := rfl

variable {s : Survey} {b : ByteArray} (h : Bytes.AgreeOn s.slice.range b s.buffer) {v : Variant}
include h

/-! ## The three phases -/

theorem scan_withBuffer (p : Pattern) (anchor : Nat) :
    (s.withBuffer b).scan p anchor = s.scan p anchor := by
  unfold scan
  exact congrArg (List.map _) (Pattern.find_congr h s.hitLimit)

theorem direct_withBuffer (scanner : Option Scanner) :
    (s.withBuffer b).direct v scanner = s.direct v scanner := by
  have hsize : (s.withBuffer b).buffer.size = s.buffer.size := h.size
  unfold direct signatureSites
  simp only [scan_withBuffer h, hsize]
  rfl

/-- A site that fits into the slice is compared with bytes of the slice. -/
theorem resembles_withBuffer {scanner : Option Scanner} {offset : Nat}
    (hfits : s.fits offset v.siteLength = true) :
    v.Resembles scanner b s.slice.range offset ↔
      v.Resembles scanner s.buffer s.slice.range offset := by
  obtain ⟨hstart, hstop⟩ := fits_iff.1 hfits
  unfold Variant.Resembles
  cases scanner with
  | some sc =>
    unfold Scanner.MatchesIn
    simp only [Pattern.matchesIn_congr h]
  | none =>
    have hexpected : v.holdsExpected b offset = v.holdsExpected s.buffer offset := by
      have hle : v.expected.length ≤ v.siteLength := Nat.le_max_left _ _
      exact h.holdsAt_eq hstart (by omega)
    have hpatch : v.holdsPatch b offset = v.holdsPatch s.buffer offset := by
      unfold Variant.holdsPatch
      cases hfixed : v.payload.fixed? with
      | none => rfl
      | some written =>
        have hle := Variant.length_le_siteLength hfixed
        exact h.holdsAt_eq hstart (by omega)
    dsimp only
    rw [hexpected, hpatch]

theorem looksLike_withBuffer {scanner : Option Scanner}
    (hsound : ∀ sc, scanner = some sc → sc.Sound) (offset : Nat) :
    (s.withBuffer b).looksLike v scanner offset = s.looksLike v scanner offset := by
  rw [Bool.eq_iff_iff, looksLike_iff hsound, looksLike_iff hsound]
  exact and_congr_right fun hfits => resembles_withBuffer h hfits

theorem derive_withBuffer {scanner : Option Scanner}
    (hsound : ∀ sc, scanner = some sc → sc.Sound) (derived : List Candidate) :
    (s.withBuffer b).derive v scanner derived = s.derive v scanner derived := by
  unfold derive
  simp only [looksLike_withBuffer h hsound]

/-- A window lies inside the slice. -/
theorem agreeOn_window (centre : Nat) : Bytes.AgreeOn (s.window v centre) b s.buffer := by
  refine h.mono fun k hstart hstop => ?_
  unfold window at hstart hstop
  dsimp only at hstart hstop
  omega

theorem windowHits_withBuffer (needle : List UInt8) (centre : Nat) :
    (s.withBuffer b).windowHits v needle (s.window v centre) =
      s.windowHits v needle (s.window v centre) := by
  unfold windowHits
  exact congrArg (List.filter _) (Bytes.find_congr (agreeOn_window h centre) needle s.hitLimit)

theorem nearby_withBuffer (centre : Nat) :
    (s.withBuffer b).nearby v centre = s.nearby v centre := by
  simp [nearby, windowHits_withBuffer h]

theorem searchAround_withBuffer (centres : List Nat) :
    (s.withBuffer b).searchAround v centres = s.searchAround v centres := by
  induction centres with
  | nil => rfl
  | cons centre rest ih =>
    unfold searchAround
    rw [nearby_withBuffer h, ih]
    rfl

theorem fuzzyUnless_withBuffer (derived : List Candidate) (first : Obstacle) :
    (s.withBuffer b).fuzzyUnless v derived first = s.fuzzyUnless v derived first := by
  simp [fuzzyUnless, fuzzy, searchAround_withBuffer h]

/-- **A search for a target depends on the bytes of the slice alone.** -/
theorem locate_withBuffer {scanner : Option Scanner} (hsound : ∀ sc, scanner = some sc → sc.Sound)
    (derived : List Candidate) :
    (s.withBuffer b).locate v scanner derived = s.locate v scanner derived := by
  unfold locate
  simp only [direct_withBuffer h, derive_withBuffer h hsound, fuzzyUnless_withBuffer h]

end Survey

namespace Resolution

/-- Looking for targets one after another depends on the bytes of the slice alone. -/
theorem locateAll_withBuffer {s : Survey} {b : ByteArray}
    (h : Bytes.AgreeOn s.slice.range b s.buffer) (rules : List Rule) {ts : List Target}
    (hts : ∀ t ∈ ts, ∀ v, t.variants.get? s.slice.platform = some v → v.Sound) (fs : Findings) :
    locateAll (s.withBuffer b) rules fs ts = locateAll s rules fs ts := by
  induction ts generalizing fs with
  | nil => rfl
  | cons t rest ih =>
    have hrest := ih fun u hu => hts u (List.mem_cons_of_mem t hu)
    rw [locateAll, locateAll, Survey.slice_withBuffer]
    cases hv : t.variants.get? s.slice.platform with
    | none => exact hrest fs
    | some v =>
      dsimp only
      cases hscanner : v.scanner? with
      | error fault => rfl
      | ok scanner =>
        have hsound := (hts t List.mem_cons_self v hv).sound_of_scanner? hscanner
        simp only [Survey.locate_withBuffer h hsound, hrest]

/-- **Resolution is confined to its slice.** Two images of one size and format that agree in the
range of a slice have the same report on it, whatever else they hold, or on neither there is one,
as a target leaves no room. -/
theorem resolveSlice_confined {c : Catalog} (h : c.validate = .ok ()) {image other : Image}
    (hformat : other.container.format = image.container.format) {slice : Slice}
    (hbytes : Bytes.AgreeOn slice.range other.buffer image.buffer) (limits : Limits) :
    (∃ r, resolveSlice image slice c limits = .ok r ∧
      resolveSlice other slice c limits = .ok r) ∨
        BreaksOff image slice c limits ∧ BreaksOff other slice c limits := by
  have hsound := Catalog.sound_of_validate h
  refine (or_breaksOff hsound fun hroom => ?_).imp_right
    fun h => ⟨h, breaksOff hsound h.narrow⟩
  obtain ⟨order, fs, r, horder, hfs, hr, -⟩ := exists_resolved hsound image hroom limits
  have hts : ∀ t ∈ order, ∀ v, t.variants.get? slice.platform = some v → v.Sound := by
    intro t ht v hv
    have hmem := (Catalog.perm_of_place horder).mem_iff.1 ht
    exact hsound.variants t (List.mem_of_mem_filter hmem) _ v hv
  have hfs' : locateAll ⟨other.buffer, slice, limits⟩ (c.rulesFor slice.platform) [] order =
      .ok fs := (locateAll_withBuffer hbytes _ hts []).trans hfs
  refine ⟨r, hr, ?_⟩
  rw [resolveSlice_eq horder hfs', hformat, ← resolveSlice_eq horder hfs, hr]

/-- One target, found by its signature. -/
def edge : Catalog where
  version := "1"
  targets := [
    { id := "A"
      category := .stereo
      variants := {
        macosArm64 := some {
          expected := [0xAA]
          signature := some { pattern := "AA BB" }
          payload := .bytes [0x1A] } } }]

/-- A universal file of 49 bytes. Its one slice holds the target at 44 and ends with the first byte
of the signature; the last byte of the file lies behind the slice. -/
def seamBytes (last : UInt8) : ByteArray :=
  ⟨#[0xCA, 0xFE, 0xBA, 0xBE, 0, 0, 0, 1, 0x01, 0, 0, 0x0C, 0, 0, 0, 0, 0, 0, 0, 28, 0, 0, 0, 20,
    0, 0, 0, 0, 0xCF, 0xFA, 0xED, 0xFE, 0x0C, 0, 0, 0x01, 0, 0, 0, 0, 8, 0, 0, 0,
    0xAA, 0xBB, 0, 0xAA, last]⟩

/-- The image of this file. -/
def seamImage (last : UInt8) : Image where
  store.bytes := seamBytes last
  buffer := seamBytes last
  container := ⟨.universal, 0, ⟨.macosArm64, .sliceRelative 28, ⟨28, 48⟩⟩, []⟩

/-- The header of the file announces this slice. -/
example : (Container.detect (seamBytes 0xBB)).toOption = some (seamImage 0xBB).container := by
  decide +kernel

/-- A match that ends behind the slice makes the signature no more ambiguous. -/
theorem resolveSlice_seam_confined :
    ∃ r, resolveSlice (seamImage 0) (seamImage 0).primary edge {} = .ok r ∧
      resolveSlice (seamImage 0xBB) (seamImage 0).primary edge {} = .ok r ∧
      r.located.map Located.offset = [44] ∧
        Pattern.matchesAt (seamImage 0xBB).buffer 47 [some 0xAA, some 0xBB] = true := by
  have hvalid : edge.validate = .ok () := Catalog.validate_eq_ok_iff.2 (by decide +kernel)
  have hbytes : Bytes.AgreeOn (seamImage 0).primary.range (seamImage 0xBB).buffer
      (seamImage 0).buffer := by
    refine ⟨rfl, fun k hstart hstop => ?_⟩
    have hall : ∀ j < 20, (seamImage 0xBB).buffer[28 + j]? = (seamImage 0).buffer[28 + j]? := by
      decide +kernel
    obtain ⟨j, rfl⟩ := Nat.exists_eq_add_of_le hstart
    have hj : 28 + j < 48 := hstop
    exact hall j (by omega)
  have hformat : (seamImage 0xBB).container.format = (seamImage 0).container.format := rfl
  have hroom : edge.HasRoom (seamImage 0).primary.platform := by decide
  obtain ⟨r, hr, hr'⟩ :=
    (resolveSlice_confined hvalid hformat hbytes {}).resolve_right fun h => h.1.narrow hroom
  have hsites : (resolveSlice (seamImage 0) (seamImage 0).primary edge {}).toOption.map
      (fun r => r.located.map Located.offset) = some [44] := by decide +kernel
  rw [hr] at hsites
  exact ⟨r, hr, hr', Option.some.inj hsites, by decide +kernel⟩

end Resolution
end BinaryPatch
