/-
# Where one target may be found

Each phase of a search answers for the offset that it yields (`Survey.Justifies`): the site lies
inside the slice, and

| phase | what the offset rests on |
| --- | --- |
| direct signature | the signature, or else the form it has after patching, has this one hit |
| derivation | a rule leads there, and the bytes there look like the target |
| fuzzy window | the expected bytes or the fixed payload stand there, and the signature has no two hits |

A hit of a signature is a match that the search does not pass over, so a signature that has one
hit can still have other matches.
-/

import BinaryPatch.Proofs.Catalog
import BinaryPatch.Proofs.Overlay
import BinaryPatch.Resolution.Search

namespace BinaryPatch

/-! ## Scanners -/

/-- A pattern that has been read has a literal. -/
theorem Pattern.longestRun_ne_nil_of_parse {text : String} {p : Pattern}
    (h : Pattern.parse text = .ok p) : p.longestRun.bytes ≠ [] := by
  unfold parse at h
  split at h
  · cases h
  · split at h
    · cases h
    · split at h
      · cases h
      · rename_i hall
        cases h
        exact longestRun_ne_nil (by simpa using hall)

namespace Scanner

/-- A scanner that a search can use. -/
structure Sound (s : Scanner) : Prop where
  run_ne_nil : s.pattern.longestRun.bytes ≠ []
  anchor_le : s.anchor ≤ s.pattern.length
  length_applied : ∀ q, s.applied = some q → q.length = s.pattern.length

/-- The signature matches at a place of a range, as it is or in the form after patching. -/
def MatchesIn (s : Scanner) (b : ByteArray) (range : Span) (start : Nat) : Prop :=
  s.pattern.MatchesIn b range start ∨ ∃ q, s.applied = some q ∧ q.MatchesIn b range start

end Scanner

/-- A list can hold what is laid over the signature, if there is one. -/
def Variant.HasRoom (v : Variant) : Prop :=
  v.signature.isSome = true → v.payload.length ≤ Cell.limit

instance (v : Variant) : Decidable v.HasRoom := inferInstanceAs (Decidable (_ → _))

/-- On a platform, every target leaves room for what is laid over its signature. -/
def Catalog.HasRoom (c : Catalog) (p : Platform) : Prop :=
  ∀ t ∈ c.targets, ∀ v ∈ t.variants.get? p, v.HasRoom

instance (c : Catalog) (p : Platform) : Decidable (c.HasRoom p) :=
  inferInstanceAs (Decidable (∀ t ∈ c.targets, ∀ v ∈ t.variants.get? p, v.HasRoom))

theorem Variant.written?_eq_none_iff {v : Variant} :
    v.written? = none ↔ Cell.limit < v.payload.length := by
  unfold written?
  cases v.payload <;> simp

theorem Variant.written?_eq_of_bytes {v : Variant} {bytes : List UInt8}
    (hbytes : v.payload = .bytes bytes) {written : List Cell} (h : v.written? = some written) :
    written = bytes.map some := by
  unfold written? at h
  rw [hbytes] at h
  dsimp only at h
  split at h
  · exact (Option.some.inj h).symm
  · cases h

/-- **A sound variant has its scanner, unless no list can hold what is laid over its signature.** -/
theorem Variant.Sound.scanner?_cases {v : Variant} (h : v.Sound) :
    v.HasRoom ∧ (∃ scanner, v.scanner? = .ok scanner) ∨
      ¬ v.HasRoom ∧ v.scanner? = .error .capacity := by
  unfold scanner?
  cases hs : v.signature with
  | none =>
    left
    refine ⟨fun hsome => ?_, none, rfl⟩
    rw [hs] at hsome
    cases hsome
  | some s =>
    obtain ⟨p, hp, -⟩ := h.signature s hs
    dsimp only
    rw [hp]
    cases hw : v.written? with
    | none =>
      right
      refine ⟨fun hroom => ?_, rfl⟩
      have hlength := hroom (by rw [hs]; rfl)
      exact absurd hlength (Nat.not_le.2 (written?_eq_none_iff.1 hw))
    | some written =>
      left
      refine ⟨fun _ => Nat.not_lt.1 fun hlong => ?_, _, rfl⟩
      rw [written?_eq_none_iff.2 hlong] at hw
      cases hw

theorem Variant.Sound.exists_scanner {v : Variant} (h : v.Sound) (hroom : v.HasRoom) :
    ∃ scanner, v.scanner? = .ok scanner := by
  rcases h.scanner?_cases with ⟨-, hscanner⟩ | ⟨hnarrow, -⟩
  · exact hscanner
  · exact absurd hroom hnarrow

/-- What a scanner is made of. -/
theorem Variant.of_scanner? {v : Variant} {sc : Scanner} (h : v.scanner? = .ok (some sc)) :
    ∃ s written, v.signature = some s ∧ Pattern.parse s.pattern = .ok sc.pattern ∧
      v.written? = some written ∧ sc.anchor = s.anchor.toNat ∧
        sc.applied = sc.pattern.overlay sc.anchor written := by
  unfold scanner? at h
  split at h
  · cases h
  · rename_i s hs
    split at h
    · cases h
    · rename_i p hp
      split at h
      · cases h
      · rename_i written hwritten
        cases h
        exact ⟨s, written, hs, hp, hwritten, rfl, rfl⟩

/-- The scanner of a sound variant is sound. -/
theorem Variant.Sound.sound_of_scanner? {v : Variant} (h : v.Sound) {scanner : Option Scanner}
    (hscanner : v.scanner? = .ok scanner) : ∀ sc, scanner = some sc → sc.Sound := by
  rintro sc rfl
  obtain ⟨s, written, hs, hp, -, hanchor, happlied⟩ := of_scanner? hscanner
  obtain ⟨p, hp', hle⟩ := h.signature s hs
  obtain rfl := Except.ok.inj (hp'.symm.trans hp)
  refine ⟨Pattern.longestRun_ne_nil_of_parse hp, hanchor ▸ hle, fun q hq => ?_⟩
  exact Pattern.length_of_overlay (happlied.symm.trans hq)

/-- A site has room for the fixed payload. -/
theorem Variant.length_le_siteLength {v : Variant} {written : List UInt8}
    (h : v.payload.fixed? = some written) : written.length ≤ v.siteLength := by
  unfold siteLength
  cases hpayload : v.payload with
  | slot length =>
    rw [hpayload] at h
    cases h
  | bytes bytes =>
    rw [hpayload] at h
    cases h
    exact Nat.le_max_right _ _

/-- The bytes at a place are those of a target: its signature matches around the place, or it has
none and the bytes are expected or written there, or a slot is to be filled. -/
def Variant.Resembles (v : Variant) (scanner : Option Scanner) (b : ByteArray) (range : Span)
    (offset : Nat) : Prop :=
  match scanner with
  | some sc => sc.anchor ≤ offset ∧ sc.MatchesIn b range (offset - sc.anchor)
  | none => v.payload.isSlot = true ∨ v.holdsExpected b offset = true ∨
      v.holdsPatch b offset = true

namespace Survey

variable {s : Survey} {v : Variant}

theorem fits_iff {offset length : Nat} :
    s.fits offset length = true ↔
      s.slice.range.start ≤ offset ∧ offset + length ≤ s.slice.range.stop := by
  unfold fits Slice.contains
  rw [Bool.and_eq_true, decide_eq_true_eq, decide_eq_true_eq]

/-- Every search collects two places if there are. -/
theorem two_le_hitLimit (s : Survey) : 2 ≤ s.hitLimit := Nat.le_max_right _ _

/-! ## Direct signature -/

/-- **A scan yields one site where the pattern has one hit.** -/
theorem hits_of_scan {p : Pattern} {anchor site : Nat} (h : s.scan p anchor = [site])
    (hsite : site < maxWord) :
    p.longestRun.bytes ≠ [] ∧ anchor ≤ site ∧
      p.hits s.buffer s.slice.range = [site - anchor] := by
  unfold scan at h
  obtain ⟨start, hfind, heq⟩ := List.map_eq_singleton_iff.1 h
  obtain rfl : start + anchor = site := by omega
  have hrun : p.longestRun.bytes ≠ [] := fun hnil => by
    rw [Pattern.find_of_run_eq_nil hnil] at hfind
    cases hfind
  refine ⟨hrun, Nat.le_add_left _ _, ?_⟩
  rw [Nat.add_sub_cancel]
  exact (Pattern.find_eq_singleton_iff hrun (Nat.le_max_right _ _)).1 hfind

theorem scan_eq_nil_iff {p : Pattern} (hrun : p.longestRun.bytes ≠ []) {anchor : Nat} :
    s.scan p anchor = [] ↔ p.hits s.buffer s.slice.range = [] := by
  unfold scan
  rw [List.map_eq_nil_iff]
  exact Pattern.find_eq_nil_iff hrun

theorem signatureSites_eq_singleton_iff {sc : Scanner} {site : Nat} :
    s.signatureSites sc = [site] ↔
      s.scan sc.pattern sc.anchor = [site] ∨
        s.scan sc.pattern sc.anchor = [] ∧
          ∃ q, sc.applied = some q ∧ s.scan q sc.anchor = [site] := by
  unfold signatureSites
  split
  · rename_i q hnil hq
    simp [hnil, hq]
  · rename_i hnot
    constructor
    · exact .inl
    · rintro (h | ⟨hnil, q, hq, -⟩)
      · exact h
      · exact absurd hq (hnot q hnil)

/-- **A signature with one site has one hit, or none and one in the form after patching.** -/
theorem hits_of_signatureSites {sc : Scanner} (hsound : sc.Sound) {site : Nat}
    (h : s.signatureSites sc = [site]) (hsite : site < maxWord) :
    sc.anchor ≤ site ∧
      (sc.pattern.hits s.buffer s.slice.range = [site - sc.anchor] ∨
        sc.pattern.hits s.buffer s.slice.range = [] ∧
          ∃ q, sc.applied = some q ∧ q.longestRun.bytes ≠ [] ∧
            q.hits s.buffer s.slice.range = [site - sc.anchor]) := by
  rcases signatureSites_eq_singleton_iff.1 h with hscan | ⟨hnil, q, hq, hscan⟩
  · obtain ⟨-, hanchor, hhits⟩ := hits_of_scan hscan hsite
    exact ⟨hanchor, .inl hhits⟩
  · obtain ⟨hrun, hanchor, hhits⟩ := hits_of_scan hscan hsite
    exact ⟨hanchor, .inr ⟨(scan_eq_nil_iff hsound.run_ne_nil).1 hnil, q, hq, hrun, hhits⟩⟩

/-- The signature matches around its only site. -/
theorem matchesIn_of_signatureSites {sc : Scanner} (hsound : sc.Sound) {site : Nat}
    (h : s.signatureSites sc = [site]) (hsite : site < maxWord) :
    sc.anchor ≤ site ∧ sc.MatchesIn s.buffer s.slice.range (site - sc.anchor) := by
  obtain ⟨hanchor, hhits⟩ := hits_of_signatureSites hsound h hsite
  refine ⟨hanchor, ?_⟩
  rcases hhits with hhits | ⟨-, q, hq, hrun, hhits⟩
  · exact .inl ((Pattern.mem_hits_iff hsound.run_ne_nil).1 (hhits ▸ List.mem_singleton_self _)).1
  · exact .inr ⟨q, hq, ((Pattern.mem_hits_iff hrun).1 (hhits ▸ List.mem_singleton_self _)).1⟩

theorem direct_eq_ok_iff {scanner : Option Scanner} {site : Nat} :
    s.direct v scanner = .ok site ↔
      ∃ sc, scanner = some sc ∧ s.signatureSites sc = [site] ∧
        s.fits site v.siteLength = true := by
  cases scanner with
  | none => simp [direct]
  | some sc =>
    rw [direct]
    split
    · rename_i hnil
      simp [hnil]
    · rename_i only honly
      by_cases hfits : s.fits only v.siteLength = true
      · rw [if_pos hfits]
        constructor
        · rintro ⟨⟩
          exact ⟨sc, rfl, honly, hfits⟩
        · rintro ⟨_, ⟨⟩, hsites, -⟩
          rw [honly] at hsites
          cases hsites
          rfl
      · rw [if_neg hfits]
        refine iff_of_false (fun h => by cases h) ?_
        rintro ⟨_, ⟨⟩, hsites, hsite⟩
        rw [honly] at hsites
        cases hsites
        exact hfits hsite
    · rename_i hnil hnot
      refine iff_of_false (fun h => by cases h) ?_
      rintro ⟨_, ⟨⟩, hsites, -⟩
      exact hnot site hsites

/-- Unless the first phase found the signature ambiguous, it has no two sites. -/
theorem length_signatureSites_le {sc : Scanner} {reason : Obstacle}
    (h : s.direct v (some sc) = .error reason) (hreason : ∀ offsets, reason ≠ .ambiguous offsets) :
    (s.signatureSites sc).length ≤ 1 := by
  rw [direct] at h
  split at h
  · rename_i hnil
    rw [hnil]
    exact Nat.zero_le _
  · rename_i only honly
    rw [honly]
    exact Nat.le_refl _
  · cases h
    exact absurd rfl (hreason _)

/-! ## Derivation -/

theorem matchesAt_iff {sc : Scanner} {b : ByteArray} {offset : Nat} :
    sc.matchesAt b offset = true ↔
      sc.pattern.matchesAt b offset = true ∨
        ∃ q, sc.applied = some q ∧ q.matchesAt b offset = true := by
  unfold Scanner.matchesAt
  rw [Bool.or_eq_true]
  cases sc.applied with
  | none => simp
  | some q => simp

/-- **What looks like a target lies inside the slice and resembles it.** -/
theorem looksLike_iff {scanner : Option Scanner} (hsound : ∀ sc, scanner = some sc → sc.Sound)
    {offset : Nat} :
    s.looksLike v scanner offset = true ↔
      s.fits offset v.siteLength = true ∧
        v.Resembles scanner s.buffer s.slice.range offset := by
  unfold looksLike Variant.Resembles
  rw [Bool.and_eq_true]
  refine and_congr_right fun _ => ?_
  cases scanner with
  | none => simp only [Bool.or_eq_true, or_assoc]
  | some sc =>
    have hlength := (hsound sc rfl).length_applied
    dsimp only
    rw [Bool.and_eq_true, Bool.and_eq_true, decide_eq_true_eq, fits_iff, matchesAt_iff, and_assoc]
    refine and_congr_right fun _ => ?_
    unfold Scanner.MatchesIn Pattern.MatchesIn
    constructor
    · rintro ⟨⟨hstart, hstop⟩, hmatch | ⟨q, hq, hmatch⟩⟩
      · exact .inl ⟨hstart, hstop, hmatch⟩
      · exact .inr ⟨q, hq, hstart, hlength q hq ▸ hstop, hmatch⟩
    · rintro (⟨hstart, hstop, hmatch⟩ | ⟨q, hq, hstart, hstop, hmatch⟩)
      · exact ⟨⟨hstart, hstop⟩, .inl hmatch⟩
      · exact ⟨⟨hstart, hlength q hq ▸ hstop⟩, .inr ⟨q, hq, hmatch⟩⟩

/-- What is derived is one of the candidates that look like the target. -/
theorem of_derive {scanner : Option Scanner} {derived : List Candidate} {c : Candidate}
    (h : s.derive v scanner derived = .ok c) :
    c ∈ derived ∧ s.looksLike v scanner c.offset = true := by
  unfold derive at h
  split at h
  · cases h
  · split at h
    · cases h
    · rename_i first rest hfilter
      split at h
      · cases h
        exact List.mem_filter.1 (hfilter ▸ List.mem_cons_self)
      · cases h

/-! ## Fuzzy window -/

/-- Hits in a window hold the bytes looked for, and a site fits there. -/
theorem of_mem_windowHits {needle : List UInt8} {window : Span} {hit : Nat}
    (h : hit ∈ s.windowHits v needle window) :
    Bytes.holdsAt s.buffer hit needle = true ∧ s.fits hit v.siteLength = true := by
  unfold windowHits at h
  obtain ⟨hmem, hfits⟩ := List.mem_filter.1 h
  exact ⟨Bytes.holdsAt_of_mem_find hmem, hfits⟩

theorem of_mem_nearby {centre hit : Nat} (h : hit ∈ s.nearby v centre) :
    (v.holdsExpected s.buffer hit = true ∨ v.holdsPatch s.buffer hit = true) ∧
      s.fits hit v.siteLength = true := by
  unfold nearby at h
  dsimp only at h
  split at h
  · rename_i bytes _ hfixed
    obtain ⟨hold, hfits⟩ := of_mem_windowHits h
    refine ⟨.inr ?_, hfits⟩
    unfold Variant.holdsPatch
    rw [hfixed]
    exact hold
  · exact (of_mem_windowHits h).imp_left .inl

theorem find?_eraseDups (p : Nat → Bool) (l : List Nat) : l.eraseDups.find? p = l.find? p := by
  induction hn : l.length using Nat.strongRecOn generalizing l with
  | ind n ih =>
    cases l with
    | nil => rfl
    | cons a rest =>
      rw [List.eraseDups_cons, List.find?_cons, List.find?_cons]
      cases hp : p a with
      | true => rfl
      | false =>
        have hlen := List.length_filter_le (fun b => !b == a) rest
        rw [ih _ (by rw [← hn, List.length_cons]; omega) _ rfl, List.find?_filter]
        refine congrArg (fun q => rest.find? q) (funext fun b => ?_)
        by_cases hb : b = a
        · simp [hb, hp]
        · simp [hb]

/-- **The window that decides is the first with a hit.** -/
theorem searchAround_eq_ok_iff {centres : List Nat} {hit : Nat} :
    s.searchAround v centres = .ok hit ↔
      ∃ centre, centres.find? (fun c => !(s.nearby v c).isEmpty) = some centre ∧
        s.nearby v centre = [hit] := by
  induction centres with
  | nil => simp [searchAround]
  | cons centre rest ih =>
    unfold searchAround
    rw [List.find?_cons]
    split
    · rename_i hnil
      rw [ih, hnil]
      rfl
    · rename_i only honly
      simp [honly]
    · rename_i hits hnil hnot
      have hfirst : (!(s.nearby v centre).isEmpty) = true := by simpa using hnil
      rw [hfirst]
      refine iff_of_false (fun h => by cases h) ?_
      rintro ⟨_, ⟨⟩, honly⟩
      exact hnot hit honly

theorem fuzzy_eq_ok_iff {derived : List Candidate} {hit : Nat} :
    s.fuzzy v derived = .ok hit ↔
      ∃ centre, (derived.map Candidate.offset ++
          (v.lastKnown.bind fun va => s.slice.toOffset va.toNat).toList).find?
            (fun c => !(s.nearby v c).isEmpty) = some centre ∧
        s.nearby v centre = [hit] := by
  rw [← find?_eraseDups]
  change _ ↔ ∃ centre, (s.centres v derived).find? _ = some centre ∧ _
  rw [← searchAround_eq_ok_iff]
  unfold fuzzy
  split
  · rename_i hnil
    rw [hnil]
    simp [searchAround]
  · rfl

/-- The third phase runs unless the signature was ambiguous. -/
theorem of_fuzzyUnless {derived : List Candidate} {first : Obstacle} {hit : Nat}
    (h : s.fuzzyUnless v derived first = .ok hit) :
    (∀ offsets, first ≠ .ambiguous offsets) ∧ s.fuzzy v derived = .ok hit := by
  unfold fuzzyUnless at h
  split at h
  · cases h
  · rename_i hnot
    exact ⟨hnot, h⟩

theorem of_fuzzy {derived : List Candidate} {hit : Nat} (h : s.fuzzy v derived = .ok hit) :
    (v.holdsExpected s.buffer hit = true ∨ v.holdsPatch s.buffer hit = true) ∧
      s.fits hit v.siteLength = true := by
  obtain ⟨centre, -, honly⟩ := fuzzy_eq_ok_iff.1 h
  exact of_mem_nearby (honly ▸ List.mem_singleton_self hit)

/-! ## The three phases -/

/-- What a found offset rests on, given the places that rules lead to. -/
structure Justifies (s : Survey) (v : Variant) (scanner : Option Scanner)
    (derived : List Candidate) (found : Found) : Prop where
  inside : s.fits found.offset v.siteLength = true
  direct : found.method = .directSignature →
    found.source = none ∧ ∃ sc, scanner = some sc ∧ s.signatureSites sc = [found.offset]
  derived : found.method = .derived →
    ∃ c ∈ derived, found.offset = c.offset ∧ found.source = some c.source ∧
      s.looksLike v scanner found.offset = true
  fuzzy : found.method = .fuzzySearch →
    found.source = none ∧
      (v.holdsExpected s.buffer found.offset = true ∨ v.holdsPatch s.buffer found.offset = true) ∧
      ∀ sc, scanner = some sc → (s.signatureSites sc).length ≤ 1

/-- **A search answers for what it finds.** -/
theorem justifies_of_locate {scanner : Option Scanner} {derived : List Candidate} {found : Found}
    (h : (s.locate v scanner derived).found = some found) :
    s.Justifies v scanner derived found := by
  unfold locate at h
  split at h
  · rename_i site hdirect
    obtain ⟨sc, hsc, hsites, hfits⟩ := direct_eq_ok_iff.1 hdirect
    cases h
    exact ⟨hfits, fun _ => ⟨rfl, sc, hsc, hsites⟩, nofun, nofun⟩
  · rename_i first hfirst
    split at h
    · rename_i c hderive
      obtain ⟨hmem, hlooks⟩ := of_derive hderive
      cases h
      have hfits := hlooks
      unfold looksLike at hfits
      exact ⟨(Bool.and_eq_true_iff.1 hfits).1, nofun, fun _ => ⟨c, hmem, rfl, rfl, hlooks⟩, nofun⟩
    · split at h
      · rename_i hit hhit
        obtain ⟨hreason, hfuzzy⟩ := of_fuzzyUnless hhit
        obtain ⟨hold, hfits⟩ := of_fuzzy hfuzzy
        cases h
        refine ⟨hfits, nofun, nofun, fun _ => ⟨rfl, hold, ?_⟩⟩
        rintro sc rfl
        exact length_signatureSites_le hfirst hreason
      · cases h

/-- Only a derived offset has a source, and a candidate that the source led to. -/
theorem Justifies.exists_candidate {scanner : Option Scanner} {derived : List Candidate}
    {found : Found} (h : s.Justifies v scanner derived found) {source : String}
    (hsource : found.source = some source) :
    found.method = .derived ∧ ∃ c ∈ derived, c.offset = found.offset ∧ c.source = source := by
  cases hmethod : found.method with
  | directSignature =>
    rw [(h.direct hmethod).1] at hsource
    cases hsource
  | derived =>
    obtain ⟨c, hc, hoffset, hname, -⟩ := h.derived hmethod
    exact ⟨rfl, c, hc, hoffset.symm, Option.some.inj (hname.symm.trans hsource)⟩
  | fuzzySearch =>
    rw [(h.fuzzy hmethod).1] at hsource
    cases hsource

end Survey
end BinaryPatch
