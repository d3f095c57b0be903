/-
# Signatures around bytes that were written

A signature that covers the site does not match any more once the site is patched. The scanner
therefore knows the form it has then: where the payload lies over a literal, the literal is the
byte of the payload (`Pattern.getElem?_patched_of_inside`). Whichever of the two forms matched
before, this form matches where the payload was written (`Pattern.matchesAt_patched_overwrite`), and
a signature that still matches there is its own patched form
(`Pattern.patched_eq_self_of_matchesAt`).

So the site has one hit as it had before, unless another place rivals it (`Scanner.Unrivalled`): a
place where the written bytes make one of the forms appear, or one that looked patched all along.
-/

import BinaryPatch.Proofs.Ambiguity
import BinaryPatch.Proofs.Confinement
import BinaryPatch.Proofs.Rounds

namespace BinaryPatch
namespace Pattern

/-! ## Cells under written bytes -/

/-- The pattern once bytes have been written `anchor` places behind its start. -/
def patched (p : Pattern) (anchor : Nat) (bytes : List UInt8) : Pattern :=
  p.layOver anchor (bytes.map some)

section Patched

variable {p : Pattern} {anchor k : Nat} {bytes : List UInt8}

@[simp, grind =]
theorem length_patched : (p.patched anchor bytes).length = p.length :=
  length_layOver p anchor (bytes.map some)

/-- Outside the written bytes the cells are the same. -/
theorem getElem?_patched_of_outside (h : k < anchor ∨ anchor + bytes.length ≤ k) :
    (p.patched anchor bytes)[k]? = p[k]? :=
  getElem?_layOver_of_outside (by rwa [List.length_map])

/-- Under a written byte a literal becomes this byte. -/
theorem getElem?_patched_of_inside {w : UInt8} (hle : anchor ≤ k)
    (hw : bytes[k - anchor]? = some w) :
    (p.patched anchor bytes)[k]? = p[k]?.map (Cell.under (some w)) :=
  getElem?_layOver_of_inside hle (by rw [List.getElem?_map, hw, Option.map_some])

/-- Literals stay literals. -/
theorem map_isNone_patched :
    (p.patched anchor bytes).map Option.isNone = p.map Option.isNone := by
  refine List.ext_getElem? fun k => ?_
  rw [List.getElem?_map, List.getElem?_map]
  by_cases hin : anchor ≤ k ∧ k < anchor + bytes.length
  · have hw : bytes[k - anchor]? = some bytes[k - anchor] := List.getElem?_eq_getElem (by omega)
    rw [getElem?_patched_of_inside hin.1 hw, Option.map_map]
    refine congrArg (fun g => p[k]?.map g) (funext fun c => ?_)
    cases c <;> rfl
  · rw [getElem?_patched_of_outside (by omega)]

end Patched

/-- A pattern has a literal exactly when its longest run is not empty. -/
theorem longestRun_ne_nil_iff {p : Pattern} :
    p.longestRun.bytes ≠ [] ↔ p.all Option.isNone = false := by
  refine ⟨fun hrun => ?_, longestRun_ne_nil⟩
  obtain ⟨w, rest, hcons⟩ := List.exists_cons_of_ne_nil hrun
  have hfirst : p[p.longestRun.lead + 0]? = some (some w) :=
    getElem?_of_longestRun (by rw [hcons]; rfl)
  have hmem : some w ∈ p := List.mem_of_getElem? hfirst
  rw [Bool.eq_false_iff]
  intro hall
  exact absurd (List.all_eq_true.1 hall _ hmem) nofun

theorem longestRun_patched_ne_nil {p : Pattern} (h : p.longestRun.bytes ≠ []) (anchor : Nat)
    (bytes : List UInt8) : (p.patched anchor bytes).longestRun.bytes ≠ [] := by
  have hall : ∀ q : Pattern, q.all Option.isNone = (q.map Option.isNone).all id := by
    intro q
    rw [List.all_map]
    rfl
  rw [longestRun_ne_nil_iff, hall, map_isNone_patched, ← hall]
  exact longestRun_ne_nil_iff.1 h

/-! ## Matches around written bytes -/

section Written

variable {b : ByteArray} {p : Pattern} {start anchor : Nat} {bytes : List UInt8}
  (hfit : start + anchor + bytes.length ≤ b.size)
include hfit

/-- **The patched form matches around the written bytes** exactly when its cells outside them match
what stood there before. -/
theorem matchesAt_patched_overwrite_iff :
    (p.patched anchor bytes).matchesAt (Bytes.overwrite b (start + anchor) bytes) start = true ↔
      start + p.length ≤ b.size ∧ ∀ k c, k < anchor ∨ anchor + bytes.length ≤ k →
        p[k]? = some c → ∃ byte, b[start + k]? = some byte ∧ Cell.accepts c byte = true := by
  simp only [matchesAt_iff, length_patched, Bytes.size_overwrite hfit]
  refine and_congr_right fun _ => ?_
  constructor
  · intro hall k c hout hc
    rw [← getElem?_patched_of_outside hout] at hc
    obtain ⟨byte, hbyte, hacc⟩ := hall k c hc
    exact ⟨byte, by grind, hacc⟩
  · intro hall k c hc
    by_cases hin : anchor ≤ k ∧ k < anchor + bytes.length
    · have hw : bytes[k - anchor]? = some bytes[k - anchor] := List.getElem?_eq_getElem (by omega)
      rw [getElem?_patched_of_inside hin.1 hw] at hc
      obtain ⟨d, -, rfl⟩ := Option.map_eq_some_iff.1 hc
      refine ⟨bytes[k - anchor], by grind, ?_⟩
      cases d <;> simp [Cell.under, Cell.accepts]
    · rw [getElem?_patched_of_outside (by omega)] at hc
      obtain ⟨byte, hbyte, hacc⟩ := hall k c (by omega) hc
      exact ⟨byte, by grind, hacc⟩

/-- **Whichever form matched, the patched one matches once the bytes are written.** -/
theorem matchesAt_patched_overwrite
    (h : p.matchesAt b start = true ∨ (p.patched anchor bytes).matchesAt b start = true) :
    (p.patched anchor bytes).matchesAt (Bytes.overwrite b (start + anchor) bytes) start = true := by
  rw [matchesAt_patched_overwrite_iff hfit]
  rcases h with h | h
  · obtain ⟨hsize, hcells⟩ := (matchesAt_iff _ _ _).1 h
    exact ⟨hsize, fun k c _ hc => hcells k c hc⟩
  · obtain ⟨hsize, hcells⟩ := (matchesAt_iff _ _ _).1 h
    exact ⟨by simpa using hsize, fun k c hout hc => hcells k c ((getElem?_patched_of_outside hout).trans hc)⟩

/-- **A pattern that still matches around the written bytes is its own patched form.** -/
theorem patched_eq_self_of_matchesAt
    (h : p.matchesAt (Bytes.overwrite b (start + anchor) bytes) start = true) :
    p.patched anchor bytes = p := by
  obtain ⟨-, hcells⟩ := (matchesAt_iff _ _ _).1 h
  refine layOver_eq_self_iff.2 ?_
  rintro k ⟨hle, literal, w, hc, hw, hne⟩
  rw [List.getElem?_map] at hw
  obtain ⟨written, hwritten, rfl⟩ := Option.map_eq_some_iff.1 hw
  have hk := (List.getElem?_eq_some_iff.1 hwritten).1
  obtain ⟨byte, hbyte, hacc⟩ := hcells k _ hc
  -- a literal that accepts the byte is the byte
  obtain rfl : written = byte := by grind
  exact hne (congrArg some (beq_iff_eq.1 hacc).symm)

end Written

/-! ## Single hits -/

theorem hits_eq_singleton_iff {p : Pattern} {b : ByteArray} {range : Span} {s : Nat} :
    p.hits b range = [s] ↔ ∀ s', s' ∈ p.hits b range ↔ s' = s := by
  constructor
  · intro h s'
    rw [h, List.mem_singleton]
  · intro h
    have hnodup : (p.hits b range).Nodup := (p.pairwise_hits b range).imp Nat.ne_of_lt
    refine List.perm_singleton.1 ?_
    rw [List.perm_ext_iff_of_nodup hnodup (List.nodup_singleton s)]
    exact fun s' => (h s').trans List.mem_singleton.symm

end Pattern

/-! ## Scanners -/

namespace Survey

variable {s : Survey}

theorem scan_of_hits {p : Pattern} {anchor start : Nat} (hrun : p.longestRun.bytes ≠ [])
    (h : p.hits s.buffer s.slice.range = [start]) (hword : start + anchor < maxWord) :
    s.scan p anchor = [start + anchor] := by
  unfold scan
  rw [(Pattern.find_eq_singleton_iff hrun (two_le_hitLimit s)).2 h, List.map_singleton,
    Nat.min_eq_left (by omega)]

/-- **A signature has one site exactly where it has one hit.** -/
theorem signatureSites_eq_singleton_iff_onlyHit {sc : Scanner} (hsc : sc.Sound) {site : Nat}
    (hsite : site < maxWord) :
    s.signatureSites sc = [site] ↔
      sc.anchor ≤ site ∧ sc.OnlyHit s.buffer s.slice.range (site - sc.anchor) := by
  refine ⟨fun h => hsc.onlyHit_of_signatureSites h hsite, ?_⟩
  rintro ⟨hanchor, honly⟩
  have hback : site - sc.anchor + sc.anchor = site := Nat.sub_add_cancel hanchor
  rw [signatureSites_eq_singleton_iff]
  rcases honly with hhits | ⟨hnone, q, hq, hrun, hhits⟩
  · have hscan := scan_of_hits hsc.run_ne_nil (Pattern.hits_eq_singleton_iff.2 hhits)
      (hback.symm ▸ hsite)
    exact .inl (hback ▸ hscan)
  · have hscan := scan_of_hits hrun (Pattern.hits_eq_singleton_iff.2 hhits) (hback.symm ▸ hsite)
    have hnil := List.eq_nil_iff_forall_not_mem.2 hnone
    exact .inr ⟨(scan_eq_nil_iff hsc.run_ne_nil).2 hnil, q, hq, hback ▸ hscan⟩

end Survey

namespace Scanner

/-- The form of the signature at a patched site. -/
def patchedForm (s : Scanner) : Pattern := s.applied.getD s.pattern

theorem patchedForm_of_some {s : Scanner} {q : Pattern} (h : s.applied = some q) :
    s.patchedForm = q := by
  rw [patchedForm, h, Option.getD_some]

theorem patchedForm_of_none {s : Scanner} (h : s.applied = none) : s.patchedForm = s.pattern := by
  rw [patchedForm, h, Option.getD_none]

/-- The signature has no hit but at one place, and its patched form has one there and no other. -/
def Unrivalled (s : Scanner) (b : ByteArray) (range : Span) (start : Nat) : Prop :=
  (∀ start' ∈ s.pattern.hits b range, start' = start) ∧
    ∀ start', start' ∈ s.patchedForm.hits b range ↔ start' = start

/-- The same, of matches in place of hits. -/
def OnlyPlace (s : Scanner) (b : ByteArray) (range : Span) (start : Nat) : Prop :=
  (∀ start', s.pattern.MatchesIn b range start' → start' = start) ∧
    s.patchedForm.OnlyMatch b range start

/-- No match of either form is passed over. -/
def NonePassedOver (s : Scanner) (b : ByteArray) (range : Span) : Prop :=
  ∀ start, ¬ s.pattern.PassedOver b range start ∧ ¬ s.patchedForm.PassedOver b range start

/-- The patched form is the signature with these bytes written over it. -/
structure FormedBy (s : Scanner) (bytes : List UInt8) : Prop where
  sound : s.Sound
  applied : s.applied = s.pattern.overlay s.anchor (bytes.map some)

end Scanner

theorem Variant.formedBy_of_scanner? {v : Variant} (hv : v.Sound) {bytes : List UInt8}
    (hbytes : v.payload = .bytes bytes) {sc : Scanner} (h : v.scanner? = .ok (some sc)) :
    sc.FormedBy bytes := by
  refine ⟨hv.sound_of_scanner? h sc rfl, ?_⟩
  obtain ⟨-, written, -, -, hwritten, -, happlied⟩ := of_scanner? h
  obtain rfl := written?_eq_of_bytes hbytes hwritten
  exact happlied

namespace Scanner

section FormedBy

variable {s : Scanner} {bytes : List UInt8} (h : s.FormedBy bytes)
include h

theorem FormedBy.patchedForm_eq : s.patchedForm = s.pattern.patched s.anchor bytes := by
  unfold patchedForm
  rw [h.applied]
  unfold Pattern.overlay Pattern.patched
  dsimp only
  split
  · rename_i hsame
    exact hsame.symm
  · rfl

theorem FormedBy.applied_eq_none (hsame : s.pattern.patched s.anchor bytes = s.pattern) :
    s.applied = none := by
  rw [h.applied]
  exact if_pos hsame

theorem FormedBy.run_ne_nil : s.patchedForm.longestRun.bytes ≠ [] := by
  rw [h.patchedForm_eq]
  exact Pattern.longestRun_patched_ne_nil h.sound.run_ne_nil _ _

variable {b : ByteArray} {range : Span} {start : Nat}

/-- **A single hit is one without rivals**, where a signature that matches has no other form. -/
theorem FormedBy.onlyHit_iff_unrivalled
    (hself : s.pattern.matchesAt b start = true → s.applied = none) :
    s.OnlyHit b range start ↔ s.Unrivalled b range start := by
  constructor
  · rintro (hhits | ⟨hnone, q, hq, -, hhits⟩)
    · have hstart := ((Pattern.mem_hits_iff h.sound.run_ne_nil).1 ((hhits start).2 rfl)).1
      have hform := patchedForm_of_none (hself hstart.2.2)
      exact ⟨fun start' hmem => (hhits start').1 hmem, hform ▸ hhits⟩
    · have hform := patchedForm_of_some hq
      exact ⟨fun start' hmem => absurd hmem (hnone start'), hform ▸ hhits⟩
  · rintro ⟨hpattern, hhits⟩
    by_cases hstart : start ∈ s.pattern.hits b range
    · refine .inl fun start' => ⟨hpattern start', ?_⟩
      rintro rfl
      exact hstart
    · have hnone : ∀ start', start' ∉ s.pattern.hits b range := fun start' hmem =>
        hstart (hpattern start' hmem ▸ hmem)
      have hrun := h.run_ne_nil
      cases happlied : s.applied with
      | none =>
        -- without another form the signature itself would have the hit
        have hform := patchedForm_of_none happlied
        exact absurd (hform ▸ (hhits start).2 rfl) hstart
      | some q =>
        rw [patchedForm_of_some happlied] at hhits hrun
        exact .inr ⟨hnone, q, happlied, hrun, hhits⟩

/-- **Where nothing is passed over, rivals are other matches.** -/
theorem FormedBy.unrivalled_iff_onlyPlace (hstart : s.patchedForm.MatchesIn b range start)
    (hnone : s.NonePassedOver b range) :
    s.Unrivalled b range start ↔ s.OnlyPlace b range start := by
  have hpattern : ∀ start', start' ∈ s.pattern.hits b range ↔ s.pattern.MatchesIn b range start' :=
    fun start' => (Pattern.mem_hits_iff h.sound.run_ne_nil).trans (and_iff_left (hnone start').1)
  have hform : ∀ start', start' ∈ s.patchedForm.hits b range ↔
      s.patchedForm.MatchesIn b range start' :=
    fun start' => (Pattern.mem_hits_iff h.run_ne_nil).trans (and_iff_left (hnone start').2)
  unfold Unrivalled OnlyPlace Pattern.OnlyMatch
  simp only [hpattern, hform]
  refine and_congr_right fun _ => ⟨fun hiff => ⟨hstart, fun start' => (hiff start').1⟩, ?_⟩
  rintro ⟨-, honly⟩ start'
  refine ⟨honly start', ?_⟩
  rintro rfl
  exact hstart

end FormedBy

end Scanner

/-! ## Before and after -/

/-- Buffers agree in a range that an overwrite does not touch. -/
theorem Bytes.agreeOn_overwrite {b : ByteArray} {o : Nat} {w : List UInt8}
    (hfit : o + w.length ≤ b.size) {range : Span}
    (h : range.stop ≤ o ∨ o + w.length ≤ range.start) : AgreeOn range (overwrite b o w) b where
  size := by simp [hfit]
  bytes k hstart hstop := by grind

/-- A pattern matches where it did, as long as it does not lie over the bytes that were written. -/
theorem Pattern.matchesIn_overwrite {b : ByteArray} {o : Nat} {w : List UInt8}
    (hfit : o + w.length ≤ b.size) {p : Pattern} {range : Span} {start : Nat}
    (h : start + p.length ≤ o ∨ o + w.length ≤ start) :
    p.MatchesIn (Bytes.overwrite b o w) range start ↔ p.MatchesIn b range start := by
  have hagree : Bytes.AgreeOn ⟨start, start + p.length⟩ (Bytes.overwrite b o w) b :=
    Bytes.agreeOn_overwrite hfit h
  unfold MatchesIn
  rw [matchesAt_congr hagree (Nat.le_refl _) (Nat.le_refl _)]

namespace Scanner

/-- The signature, laid at a place, shares a byte with a site at which bytes are written. -/
def Touches (s : Scanner) (site : Nat) (bytes : List UInt8) (start : Nat) : Prop :=
  site < start + s.pattern.length ∧ start < site + bytes.length

/-- **Where the rivals of a patched site come from**: the written bytes lie under them, or they were
there before. The signature itself had no other hit, so a match that was there had been passed over;
a place that looks patched may always have been there. -/
structure RivalsFrom (s : Scanner) (before after : ByteArray) (range : Span) (site : Nat)
    (bytes : List UInt8) : Prop where
  pattern : ∀ start ∈ s.pattern.hits after range, start ≠ site - s.anchor →
    s.Touches site bytes start ∨ s.pattern.PassedOver before range start
  patchedForm : ∀ start ∈ s.patchedForm.hits after range, start ≠ site - s.anchor →
    s.Touches site bytes start ∨ s.patchedForm.MatchesIn before range start

theorem FormedBy.length_patchedForm {s : Scanner} {bytes : List UInt8} (h : s.FormedBy bytes) :
    s.patchedForm.length = s.pattern.length := by
  simp [h.patchedForm_eq]

theorem FormedBy.rivalsFrom {s : Scanner} {bytes : List UInt8} (h : s.FormedBy bytes)
    {b : ByteArray} {range : Span} {site : Nat} (hfit : site + bytes.length ≤ b.size)
    (honly : s.OnlyHit b range (site - s.anchor)) :
    s.RivalsFrom b (Bytes.overwrite b site bytes) range site bytes := by
  have happart : ∀ {start}, ¬ s.Touches site bytes start →
      start + s.pattern.length ≤ site ∨ site + bytes.length ≤ start := by
    intro start hnot
    unfold Touches at hnot
    omega
  constructor
  · intro start hhit hne
    by_cases htouches : s.Touches site bytes start
    · exact .inl htouches
    · right
      have hmatch := ((Pattern.mem_hits_iff h.sound.run_ne_nil).1 hhit).1
      rw [Pattern.matchesIn_overwrite hfit (happart htouches)] at hmatch
      refine passedOver_of_not_mem_hits h.sound.run_ne_nil hmatch fun hmem => ?_
      rcases honly with hhits | ⟨hnone, -⟩
      · exact hne ((hhits start).1 hmem)
      · exact hnone start hmem
  · intro start hhit _
    by_cases htouches : s.Touches site bytes start
    · exact .inl htouches
    · right
      have hmatch := ((Pattern.mem_hits_iff h.run_ne_nil).1 hhit).1
      rwa [Pattern.matchesIn_overwrite hfit (by
        rw [h.length_patchedForm]
        exact happart htouches)] at hmatch

/-- **The site matches in its patched form once it is patched.** -/
theorem FormedBy.matchesIn_overwrite {s : Scanner} {bytes : List UInt8} (h : s.FormedBy bytes)
    {b : ByteArray} {range : Span} {site : Nat} (hfit : site + bytes.length ≤ b.size)
    (hanchor : s.anchor ≤ site) (honly : s.OnlyHit b range (site - s.anchor)) :
    s.patchedForm.MatchesIn (Bytes.overwrite b site bytes) range (site - s.anchor) := by
  have hsite : site - s.anchor + s.anchor = site := Nat.sub_add_cancel hanchor
  have hbefore : (s.pattern.MatchesIn b range (site - s.anchor)) ∨
      s.patchedForm.MatchesIn b range (site - s.anchor) := by
    rcases honly with hhits | ⟨-, q, hq, hrun, hhits⟩
    · exact .inl ((Pattern.mem_hits_iff h.sound.run_ne_nil).1 ((hhits _).2 rfl)).1
    · rw [patchedForm_of_some hq]
      exact .inr ((Pattern.mem_hits_iff hrun).1 ((hhits _).2 rfl)).1
  have hlength := h.length_patchedForm
  have hroom : site - s.anchor + s.anchor + bytes.length ≤ b.size := by omega
  have hmatch := Pattern.matchesAt_patched_overwrite hroom
    (hbefore.imp (·.2.2) fun hin => h.patchedForm_eq ▸ hin.2.2)
  rw [hsite, ← h.patchedForm_eq] at hmatch
  rcases hbefore with hin | hin
  · exact ⟨hin.1, hlength ▸ hin.2.1, hmatch⟩
  · exact ⟨hin.1, hin.2.1, hmatch⟩

/-- **A site stays the only one exactly when it has no rival** in the buffer in which it is patched. -/
theorem FormedBy.onlyHit_overwrite_iff {s : Scanner} {bytes : List UInt8} (h : s.FormedBy bytes)
    {b : ByteArray} {range : Span} {site : Nat} (hfit : site + bytes.length ≤ b.size)
    (hanchor : s.anchor ≤ site) :
    s.OnlyHit (Bytes.overwrite b site bytes) range (site - s.anchor) ↔
      s.Unrivalled (Bytes.overwrite b site bytes) range (site - s.anchor) := by
  refine h.onlyHit_iff_unrivalled fun hmatch => h.applied_eq_none ?_
  have hsite : site - s.anchor + s.anchor = site := Nat.sub_add_cancel hanchor
  have hroom : site - s.anchor + s.anchor + bytes.length ≤ b.size := by omega
  exact Pattern.patched_eq_self_of_matchesAt hroom (by rwa [hsite])

end Scanner

namespace Resolution

/-! ## A single target -/

theorem found_locate_direct_iff {s : Survey} {v : Variant} {scanner : Option Scanner}
    {derived : List Survey.Candidate} {offset : Nat} :
    (s.locate v scanner derived).found = some ⟨offset, .directSignature, none⟩ ↔
      s.direct v scanner = .ok offset := by
  unfold Survey.locate
  split
  · rename_i site hsite
    simp [hsite]
  · rename_i first hfirst
    rw [hfirst]
    refine iff_of_false ?_ nofun
    split
    · simp
    · split <;> simp

namespace Resolved

variable {s : Survey} {c : Catalog} {fs : Findings} {r : Report} (h : Resolved s c fs r)
  {t : Target} (hone : c.targets = [t])
include h hone

/-- A single target has no rules. -/
theorem rulesFor_eq_nil : c.rulesFor s.slice.platform = [] := by
  have hids : ∀ id ∈ (c.targetsFor s.slice.platform).map Target.id, id = t.id := by
    intro id hid
    obtain ⟨u, hu, rfl⟩ := List.mem_map.1 hid
    have hmem := (Catalog.Sound.mem_targetsFor_iff.1 hu).1
    rw [hone, List.mem_singleton] at hmem
    rw [hmem]
  refine List.eq_nil_iff_forall_not_mem.2 fun rule hrule => ?_
  obtain ⟨hsource, hdest⟩ := Catalog.Sound.mem_ids_of_mem_rulesFor hrule
  exact h.rules_ne rule hrule ((hids _ hsource).trans (hids _ hdest).symm)

/-- **Of a single target the report says what the first phase yields**, if it yields anything. -/
theorem mem_located_direct_iff {v : Variant} {scanner : Option Scanner}
    (hv : t.variants.get? s.slice.platform = some v) (hscanner : v.scanner? = .ok scanner)
    {offset : Nat} :
    site s.slice t.id ⟨offset, .directSignature, none⟩ ∈ r.located ↔
      s.direct v scanner = .ok offset := by
  have hmem : t ∈ c.targetsFor s.slice.platform :=
    Catalog.Sound.mem_targetsFor_iff.2 ⟨hone ▸ List.mem_singleton_self t, by rw [hv]; rfl⟩
  have hget := h.solves.get?_eq_locate hmem hv hscanner
  have hkept : ¬ fs.Lost (c.rulesFor s.slice.platform) t.id := by
    rw [h.rulesFor_eq_nil hone]
    exact Findings.not_lost_of_satisfies (fun _ hr => absurd hr List.not_mem_nil) t.id
  rw [h.mem_located_iff_not_lost, ← found_locate_direct_iff]
  constructor
  · rintro ⟨id, ⟨o, m, source⟩, hfound, -, hsite⟩
    cases hsite
    rwa [Findings.found?_of_get? hget] at hfound
  · intro hfound
    refine ⟨t.id, _, ?_, hkept, rfl⟩
    rw [Findings.found?_of_get? hget, hfound]

/-- A site found by its signature is that of the target, and has no source. -/
theorem exists_eq_site_of_direct {x : Located} (hx : x ∈ r.located)
    (hdirect : x.method = .directSignature) :
    ∃ offset, x = site s.slice t.id ⟨offset, .directSignature, none⟩ := by
  obtain ⟨id, ⟨offset, m, source⟩, hfound, -, rfl⟩ := h.mem_located_iff_not_lost.1 hx
  obtain ⟨u, hu, rfl⟩ := h.exists_target hfound
  have hmem := (Catalog.Sound.mem_targetsFor_iff.1 hu).1
  rw [hone, List.mem_singleton] at hmem
  obtain ⟨v, scanner, hjust⟩ := h.solves.exists_justifies hfound
  obtain ⟨hsource, -⟩ := hjust.direct hdirect
  cases hdirect
  cases hsource
  exact ⟨offset, by rw [hmem]⟩

end Resolved

/-- **A patched site is found again exactly when it has no rival.** With one target in the catalog,
its payload can be written at the site found by its signature. A second resolution finds the same
site in the same way exactly when the signature has no hit elsewhere and its patched form has none
either; where nothing is passed over, exactly when neither matches elsewhere. -/
theorem resolveSlice_patched_iff {c : Catalog} (h : c.validate = .ok ()) {t : Target}
    (hone : c.targets = [t]) {image : Image} (hsize : image.size ≤ maxWord) {slice : Slice}
    (hinside : slice.range.stop ≤ image.size) {limits : Limits} {r : Report}
    (hr : resolveSlice image slice c limits = .ok r) {x : Located} (hx : x ∈ r.located)
    (hdirect : x.method = .directSignature) {v : Variant}
    (hv : t.variants.get? slice.platform = some v) {bytes : List UInt8}
    (hbytes : v.payload = .bytes bytes) :
    ∃ sc image' r', v.scanner? = .ok (some sc) ∧ image.write x.offset bytes = .ok image' ∧
      resolveSlice image' slice c limits = .ok r' ∧
      (x ∈ r'.located ↔
        sc.Unrivalled image'.buffer slice.range (x.offset - sc.anchor)) ∧
      (sc.NonePassedOver image'.buffer slice.range →
        (x ∈ r'.located ↔ sc.OnlyPlace image'.buffer slice.range (x.offset - sc.anchor))) ∧
      sc.RivalsFrom image.buffer image'.buffer slice.range x.offset bytes := by
  have hsound := Catalog.sound_of_validate h
  have ht : t ∈ c.targets := hone ▸ List.mem_singleton_self t
  have hvsound := hsound.variants t ht _ v hv
  have hcatalog := hasRoom_of_resolveSlice hsound hr
  obtain ⟨scanner, hscanner⟩ := hvsound.exists_scanner (hcatalog t ht v hv)
  obtain ⟨fs, hresolved⟩ := resolved_of_resolveSlice hsound hr
  obtain ⟨o, rfl⟩ := hresolved.exists_eq_site_of_direct hone hx hdirect
  have hyields := (hresolved.mem_located_direct_iff hone hv hscanner).1 hx
  obtain ⟨sc, rfl, hsites, hfits⟩ := Survey.direct_eq_ok_iff.1 hyields
  have hformed := Variant.formedBy_of_scanner? hvsound hbytes hscanner
  have hword := lt_maxWord_of_fits hvsound (Nat.le_trans hinside hsize) hfits
  obtain ⟨hanchor, honly⟩ :=
    (Survey.signatureSites_eq_singleton_iff_onlyHit hformed.sound hword).1 hsites
  -- the site lies inside the slice, and has room for the payload
  have hroom : o + bytes.length ≤ image.buffer.size := by
    have hlength : bytes.length ≤ v.siteLength :=
      Variant.length_le_siteLength (by rw [hbytes]; rfl)
    have hstop : o + v.siteLength ≤ slice.range.stop := (Survey.fits_iff.1 hfits).2
    unfold Image.size at hinside
    omega
  have hwrite : image.write o bytes =
      .ok { image with buffer := Bytes.overwrite image.buffer o bytes, dirty := true } :=
    if_pos (decide_eq_true hroom)
  obtain ⟨-, fs', r', -, -, hr', hresolved'⟩ := exists_resolved hsound
    { image with buffer := Bytes.overwrite image.buffer o bytes, dirty := true } hcatalog limits
  have hagain : site slice t.id ⟨o, .directSignature, none⟩ ∈ r'.located ↔
      sc.Unrivalled (Bytes.overwrite image.buffer o bytes) slice.range (o - sc.anchor) := by
    rw [hresolved'.mem_located_direct_iff hone hv hscanner, Survey.direct_eq_ok_iff,
      ← hformed.onlyHit_overwrite_iff hroom hanchor]
    constructor
    · rintro ⟨_, ⟨⟩, hsites', -⟩
      exact ((Survey.signatureSites_eq_singleton_iff_onlyHit hformed.sound hword).1 hsites').2
    · intro honly'
      exact ⟨sc, rfl, (Survey.signatureSites_eq_singleton_iff_onlyHit hformed.sound hword).2
        ⟨hanchor, honly'⟩, hfits⟩
  refine ⟨sc, _, r', hscanner, hwrite, hr', hagain, fun hnone => ?_, hformed.rivalsFrom hroom honly⟩
  have hstands := hformed.matchesIn_overwrite hroom hanchor honly
  exact hagain.trans (hformed.unrivalled_iff_onlyPlace hstands hnone)

/-! ### A place that looks patched already -/

/-- One target whose signature covers just the bytes that are written. -/
def framedTarget : Target where
  id := "A"
  category := .stereo
  variants := {
    linux := some {
      expected := [0xAA, 0xBB]
      signature := some { pattern := "AA BB" }
      payload := .bytes [0xCC, 0xDD] } }

/-- The target as a catalog. -/
def framed : Catalog where
  version := "1"
  targets := [framedTarget]

/-- A file of 28 bytes that holds the target at 20, and two other bytes at 24. -/
def framedImage (first second : UInt8) : Image :=
  let bytes : ByteArray :=
    ⟨#[0x7F, 0x45, 0x4C, 0x46, 2, 1, 1, 0, 0, 0, 0, 0, 0, 0, 0, 0, 3, 0, 0, 0,
      0xAA, 0xBB, 0, 0, first, second, 0, 0]⟩
  { store.bytes := bytes
    buffer := bytes
    container := ⟨.elf, 0, .whole .linux .identity 28, []⟩ }

/-- The file is one that can be loaded. -/
example : Image.load (framedImage 0xCC 0xDD).store = .ok (framedImage 0xCC 0xDD) := rfl

/-- The site of the target. -/
def framedSite : Located := ⟨"A", 20, .directSignature, none, some 20⟩

theorem validate_framed : framed.validate = .ok () :=
  Catalog.validate_eq_ok_iff.2 (by decide +kernel)

/-- Whether or not the payload stands at the other place, the target is found. -/
theorem located_framed {bytes : UInt8 × UInt8} (h : bytes = (0xCC, 0xDD) ∨ bytes = (0, 0)) :
    ∃ r, resolveSlice (framedImage bytes.1 bytes.2) (framedImage bytes.1 bytes.2).primary framed {} =
      .ok r ∧ r.located = [framedSite] := by
  rcases h with rfl | rfl
  · exact exists_ok_of_toOption_map (by decide +kernel)
  · exact exists_ok_of_toOption_map (by decide +kernel)

/-- **A patched site need not be found again.** If the payload also stands elsewhere, both places
look patched, and none is chosen. -/
theorem not_resolveSlice_patched :
    ¬ ∀ (c : Catalog) (t : Target) (image image' : Image) (slice : Slice) (limits : Limits)
      (r r' : Report) (x : Located) (v : Variant) (bytes : List UInt8), c.validate = .ok () →
        c.targets = [t] → image.size ≤ maxWord → slice.range.stop ≤ image.size →
          resolveSlice image slice c limits = .ok r → x ∈ r.located →
            x.method = .directSignature → t.variants.get? slice.platform = some v →
              v.payload = .bytes bytes → v.holdsExpected image.buffer x.offset = true →
                image.write x.offset bytes = .ok image' →
                  resolveSlice image' slice c limits = .ok r' →
                    ∃ y ∈ r'.located, y.targetId = x.targetId ∧
                      y.method = .directSignature ∧ y.offset = x.offset := by
  intro hall
  obtain ⟨r, hr, hlocated⟩ := located_framed (.inl rfl)
  let patched : Image := { framedImage 0xCC 0xDD with
    buffer := Bytes.overwrite (framedImage 0xCC 0xDD).buffer 20 [0xCC, 0xDD], dirty := true }
  obtain ⟨r', hr', hnone⟩ := exists_ok_of_toOption_map
    (show (resolveSlice patched (framedImage 0xCC 0xDD).primary framed {}).toOption.map
      Report.located = some [] by decide +kernel)
  obtain ⟨y, hy, -⟩ := hall framed framedTarget (framedImage 0xCC 0xDD) patched _ {} r r' framedSite
    _ [0xCC, 0xDD] validate_framed rfl (by decide) (by decide) hr
    (hlocated ▸ List.mem_singleton_self _) rfl rfl rfl (by decide +kernel) rfl hr'
  rw [hnone] at hy
  exact List.not_mem_nil hy

/-- Where the payload stands nowhere else, the site has no rival and is found again, by
`resolveSlice_patched_iff`. -/
theorem resolveSlice_framed_patched :
    ∃ image' r', (framedImage 0 0).write 20 [0xCC, 0xDD] = .ok image' ∧
      resolveSlice image' (framedImage 0 0).primary framed {} = .ok r' ∧
        framedSite ∈ r'.located := by
  obtain ⟨r, hr, hlocated⟩ := located_framed (.inr rfl)
  obtain ⟨sc, image', r', hsc, hwrite, hr', hiff, -⟩ := resolveSlice_patched_iff validate_framed
    (show framed.targets = [framedTarget] from rfl) (by decide) (by decide) hr
    (show framedSite ∈ r.located from hlocated ▸ List.mem_singleton_self _) rfl rfl rfl
  obtain rfl : (⟨[some 0xAA, some 0xBB], some [some 0xCC, some 0xDD], 0⟩ : Scanner) = sc :=
    Option.some.inj (Except.ok.inj (Eq.trans (by decide +kernel) hsc))
  refine ⟨image', r', hwrite, hr', hiff.2 ?_⟩
  obtain rfl : ({ framedImage 0 0 with
    buffer := Bytes.overwrite (framedImage 0 0).buffer 20 [0xCC, 0xDD], dirty := true } : Image) =
      image' := Except.ok.inj (Eq.trans rfl hwrite)
  refine ⟨?_, Pattern.hits_eq_singleton_iff.1 ?_⟩
  · decide +kernel
  · decide +kernel

end Resolution
end BinaryPatch
