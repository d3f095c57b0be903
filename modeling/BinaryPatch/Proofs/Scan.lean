/-
# Searches and the plain scan

The plain scan tests every place of a range (`Span.scan`). A search tests few of them: it looks for
one run of bytes and goes on behind each occurrence. Still it finds places of the scan only, in
their order (`Span.Picks`), and where the run has no border it finds the first of them
(`search_scans`): such a run does not overlap itself, so going on behind an occurrence skips none.

The run is the longest of the pattern, and the first of these. `Pattern.FirstLongest` says so of all
runs of the pattern, and there is one such run (`Pattern.firstLongest_iff`).
-/

import BinaryPatch.Proofs.Search
import Mathlib.Data.List.Sort

namespace BinaryPatch

/-! ## The plain scan -/

namespace Span

/-- A place at which `length` bytes lie inside a range and a buffer of the given size, and which
passes a test. -/
def Place (range : Span) (size length : Nat) (test : Nat → Bool) (q : Nat) : Prop :=
  range.start ≤ q ∧ q + length ≤ min range.stop size ∧ test q = true

instance (range : Span) (size length : Nat) (test : Nat → Bool) :
    DecidablePred (range.Place size length test) := fun _ => inferInstanceAs (Decidable (_ ∧ _ ∧ _))

/-- All such places, found by testing one offset after another. -/
def scan (range : Span) (size length : Nat) (test : Nat → Bool) : List Nat :=
  (List.range (size + 1)).filter fun q => range.Place size length test q

/-- What a search finds with a limit: places in ascending order, and no more than the limit. -/
structure Picks (found : List Nat) (place : Nat → Prop) (limit : Nat) : Prop where
  ascending : found.Pairwise (· < ·)
  length_le : found.length ≤ limit
  place : ∀ q ∈ found, place q

variable {range : Span} {size length limit : Nat} {test : Nat → Bool} {all : List Nat}

theorem mem_scan_iff {q : Nat} :
    q ∈ range.scan size length test ↔ range.Place size length test q := by
  unfold scan
  rw [List.mem_filter, List.mem_range, decide_eq_true_iff]
  refine and_iff_right_of_imp fun h => ?_
  have := h.2.1
  omega

theorem pairwise_scan : (range.scan size length test).Pairwise (· < ·) :=
  List.pairwise_lt_range.filter _

/-- A limit cuts short what ascends. -/
theorem picks_take {place : Nat → Prop} (h : all.Pairwise (· < ·)) (hplace : ∀ q ∈ all, place q)
    (limit : Nat) : Picks (all.take limit) place limit where
  ascending := h.sublist (List.take_sublist _ _)
  length_le := List.length_take_le _ _
  place q hq := hplace q (List.mem_of_mem_take hq)

/-- **What ascends and leaves out no place is what the scan finds.** -/
theorem eq_scan (h : all.Pairwise (· < ·))
    (hmem : ∀ q, q ∈ all ↔ range.Place size length test q) : all = range.scan size length test :=
  h.eq_of_mem_iff pairwise_scan fun q => (hmem q).trans mem_scan_iff.symm

end Span

/-! ## Byte strings -/

namespace Bytes

variable {b : ByteArray} {needle : List UInt8} {range : Span} {q : Nat}

theorem standsIn_iff_place :
    StandsIn b needle range q ↔
      range.Place b.size needle.length (fun q => holdsAt b q needle) q := by
  unfold StandsIn Span.Place
  constructor
  · rintro ⟨hstart, hstop, hold⟩
    have := fits_of_holdsAt hold
    exact ⟨hstart, by omega, hold⟩
  · rintro ⟨hstart, hstop, hold⟩
    exact ⟨hstart, by omega, hold⟩

/-- **No occurrence of bytes without a border is left out.** -/
theorem mem_occurrencesIn_iff_of_unbordered (hneedle : needle ≠ []) (h : Unbordered needle) :
    q ∈ occurrencesIn b needle range ↔ StandsIn b needle range q := by
  refine ⟨standsIn_of_mem_occurrencesIn hneedle, fun hq => ?_⟩
  obtain ⟨p, hp, hle, hover⟩ := hq.exists_mem_occurrencesIn hneedle
  rcases Nat.lt_or_eq_of_le hle with hlt | rfl
  · -- the two places would overlap
    have := h.le_of_holdsAt (standsIn_of_mem_occurrencesIn hneedle hp).2.2 hq.2.2 hlt
    omega
  · exact hp

end Bytes

/-! ## Patterns -/

namespace Pattern

/-- The bytes of a run stand in the pattern as literals, behind the cells that it leaves out. -/
def HasRun (p : Pattern) (run : Run) : Prop :=
  ∀ (k : Nat) (w : UInt8), run.bytes[k]? = some w → p[run.lead + k]? = some (some w)

/-- The longest run of a pattern, and the first of these. -/
structure FirstLongest (p : Pattern) (run : Run) : Prop where
  isRun : p.HasRun run
  longest : ∀ other, p.HasRun other → other.bytes.length ≤ run.bytes.length
  first : ∀ other, p.HasRun other → other.bytes.length = run.bytes.length → run.lead ≤ other.lead

/-- A run at the start of a pattern is no longer than the literals there. -/
theorem HasRun.length_le_literals {p : Pattern} {bytes : List UInt8} (h : p.HasRun ⟨0, bytes⟩) :
    bytes.length ≤ p.literals.length := by
  induction bytes generalizing p with
  | nil => exact Nat.zero_le _
  | cons byte rest ih =>
    have hfirst := h 0 byte rfl
    cases p with
    | nil => cases hfirst
    | cons c cells =>
      obtain rfl : c = some byte := by simpa using hfirst
      have hcells : HasRun cells ⟨0, rest⟩ := fun k w hk => by simpa using h (k + 1) w hk
      have := ih hcells
      simp only [literals, List.length_cons]
      omega

theorem HasRun.bytes_eq_nil {run : Run} (h : HasRun [] run) : run.bytes = [] := by
  cases hbytes : run.bytes with
  | nil => rfl
  | cons byte rest =>
    have hfirst := h 0 byte (by rw [hbytes]; rfl)
    cases hfirst

/-- A run starts with the pattern, or is one of the cells behind the first. -/
theorem HasRun.of_cons {c : Cell} {rest : Pattern} {run : Run} (h : HasRun (c :: rest) run) :
    (run.lead = 0 ∧ run.bytes.length ≤ (literals (c :: rest)).length) ∨
      ∃ lead, run.lead = lead + 1 ∧ HasRun rest ⟨lead, run.bytes⟩ := by
  obtain ⟨lead, bytes⟩ := run
  cases lead with
  | zero => exact .inl ⟨rfl, h.length_le_literals⟩
  | succ lead =>
    refine .inr ⟨lead, rfl, fun k w hk => ?_⟩
    have := h k w hk
    rwa [show lead + 1 + k = lead + k + 1 by omega, List.getElem?_cons_succ] at this

/-- **The run that a search looks for is the longest, and the first of these.** -/
theorem firstLongest_longestRun (p : Pattern) : p.FirstLongest p.longestRun := by
  induction p with
  | nil =>
    refine ⟨nofun, fun other hother => ?_, fun _ _ _ => Nat.zero_le _⟩
    rw [hother.bytes_eq_nil]
    exact Nat.zero_le _
  | cons c rest ih =>
    -- a run behind the first cell is beaten by the longest there
    have hrivals : ∀ other, HasRun (c :: rest) other →
        (other.lead = 0 ∧ other.bytes.length ≤ (literals (c :: rest)).length) ∨
          (other.bytes.length ≤ (longestRun rest).bytes.length ∧
            (other.bytes.length = (longestRun rest).bytes.length →
              (longestRun rest).lead + 1 ≤ other.lead)) := by
      intro other hother
      refine hother.of_cons.imp_right ?_
      rintro ⟨lead, hlead, hrest⟩
      refine ⟨ih.longest ⟨lead, other.bytes⟩ hrest, fun hlength => ?_⟩
      exact hlead ▸ Nat.succ_le_succ (ih.first ⟨lead, other.bytes⟩ hrest hlength)
    refine ⟨fun k w hk => getElem?_of_longestRun hk, fun other hother => ?_,
      fun other hother => ?_⟩
    all_goals
      have := hrivals other hother
      unfold longestRun
      dsimp only
      split <;> dsimp only <;> omega

/-- A pattern has one such run. -/
theorem firstLongest_iff {p : Pattern} {run : Run} : p.FirstLongest run ↔ run = p.longestRun := by
  refine ⟨fun h => ?_, fun h => h ▸ p.firstLongest_longestRun⟩
  have hown := p.firstLongest_longestRun
  have hlength : run.bytes.length = p.longestRun.bytes.length :=
    Nat.le_antisymm (hown.longest _ h.isRun) (h.longest _ hown.isRun)
  have hlead : run.lead = p.longestRun.lead :=
    Nat.le_antisymm (h.first _ hown.isRun hlength.symm) (hown.first _ h.isRun hlength)
  have hbytes : run.bytes = p.longestRun.bytes := by
    refine List.ext_getElem hlength fun k hk hk' => ?_
    have hcell := h.isRun k _ (List.getElem?_eq_getElem hk)
    rw [hlead, hown.isRun k _ (List.getElem?_eq_getElem hk')] at hcell
    exact (Option.some.inj (Option.some.inj hcell)).symm
  cases run
  cases hlead
  cases hbytes
  rfl

/-- A pattern with a literal has a run of literals. -/
theorem longestRun_ne_nil_of_mem {p : Pattern} {literal : UInt8} (h : some literal ∈ p) :
    p.longestRun.bytes ≠ [] := by
  refine longestRun_ne_nil (Bool.eq_false_iff.2 fun hall => ?_)
  exact absurd (List.all_eq_true.1 hall _ h) nofun

variable {p : Pattern} {b : ByteArray} {range : Span}

theorem matchesIn_iff_place {s : Nat} :
    p.MatchesIn b range s ↔ range.Place b.size p.length (fun s => p.matchesAt b s) s := by
  unfold MatchesIn Span.Place
  constructor
  · rintro ⟨hstart, hstop, hmatch⟩
    have := fits_of_matchesAt hmatch
    exact ⟨hstart, by omega, hmatch⟩
  · rintro ⟨hstart, hstop, hmatch⟩
    exact ⟨hstart, by omega, hmatch⟩

/-- **No match is left out of a pattern whose run has no border.** -/
theorem mem_hits_iff_of_unbordered (hrun : p.longestRun.bytes ≠ [])
    (h : Bytes.Unbordered p.longestRun.bytes) {s : Nat} :
    s ∈ p.hits b range ↔ p.MatchesIn b range s := by
  rw [mem_hits_iff hrun]
  exact and_iff_left (not_passedOver_of_unbordered hrun h s)

end Pattern

/-- **A search finds places of the plain scan, and the first of them where what it looks for has no
border.** A search for a pattern looks for the first of its longest runs of literals. -/
theorem search_scans (b : ByteArray) (range : Span) (limit : Nat) :
    (∀ (p : Pattern) (literal : UInt8), some literal ∈ p →
      Span.Picks (p.find b range limit)
        (range.Place b.size p.length fun s => p.matchesAt b s) (max limit 1) ∧
      ∀ run, p.FirstLongest run → Bytes.Unbordered run.bytes →
        p.find b range limit =
          (range.scan b.size p.length fun s => p.matchesAt b s).take (max limit 1)) ∧
    ∀ needle : List UInt8, needle ≠ [] →
      Span.Picks (Bytes.find b needle range limit)
        (range.Place b.size needle.length fun q => Bytes.holdsAt b q needle) limit ∧
      (Bytes.Unbordered needle → Bytes.find b needle range limit =
        (range.scan b.size needle.length fun q => Bytes.holdsAt b q needle).take limit) := by
  refine ⟨fun p literal hliteral => ?_, fun needle hneedle => ?_⟩
  · have hrun := Pattern.longestRun_ne_nil_of_mem hliteral
    have hascending := p.pairwise_hits b range
    rw [Pattern.find_eq_take hrun, Nat.max_comm 1 limit]
    refine ⟨Span.picks_take hascending (fun s hs => ?_) _, fun run hfirst hborder => ?_⟩
    · exact Pattern.matchesIn_iff_place.1 ((Pattern.mem_hits_iff hrun).1 hs).1
    · rw [Pattern.firstLongest_iff.1 hfirst] at hborder
      rw [Span.eq_scan hascending fun s =>
        (Pattern.mem_hits_iff_of_unbordered hrun hborder).trans Pattern.matchesIn_iff_place]
  · have hascending := Bytes.pairwise_occurrencesIn b needle range
    rw [Bytes.find_eq_take hneedle]
    refine ⟨Span.picks_take hascending (fun q hq => ?_) _, fun hborder => ?_⟩
    · exact Bytes.standsIn_iff_place.1 (Bytes.standsIn_of_mem_occurrencesIn hneedle hq)
    · rw [Span.eq_scan hascending fun q =>
        (Bytes.mem_occurrencesIn_iff_of_unbordered hneedle hborder).trans
          Bytes.standsIn_iff_place]

/-- Nine bytes in which two bytes without a border stand three times. -/
def thrice : ByteArray := ⟨#[0x01, 0xAA, 0xBB, 0xAA, 0xAA, 0xBB, 0x02, 0xAA, 0xBB]⟩

/-- Before them a pattern leaves out one cell, and is found by `search_scans` where the whole of it
lies inside the range. -/
theorem search_scans_thrice :
    Pattern.find thrice [none, some 0xAA, some 0xBB] ⟨0, 8⟩ 3 = [0, 3] ∧
      Bytes.find thrice [0xAA, 0xBB] ⟨2, 100⟩ 1 = [4] := by
  have hborder : Bytes.Unbordered [0xAA, 0xBB] := by
    intro k hpos hk
    obtain rfl : k = 1 := by rw [List.length_cons, List.length_singleton] at hk; omega
    decide
  have hrun := Pattern.firstLongest_longestRun [none, some 0xAA, some 0xBB]
  rw [(search_scans thrice ⟨0, 8⟩ 3).1 [none, some 0xAA, some 0xBB] 0xAA (by decide) |>.2 _ hrun
      hborder,
    (search_scans thrice ⟨2, 100⟩ 1).2 [0xAA, 0xBB] nofun |>.2 hborder]
  decide +kernel

end BinaryPatch
