/-
# What a search finds

A byte string is looked for from left to right, and after an occurrence the search goes on behind
it. So the occurrences it takes do not overlap, and each of the others overlaps one that stands
before it (`Bytes.exists_mem_occurrences`).

A pattern is looked for through its longest run of literals. It is found at the places where it
matches, except those where its run overlaps an occurrence taken before: there the match is passed
over (`Pattern.PassedOver`). What is found without a limit are the matches that are not passed
over (`Pattern.mem_hits_iff`), and a limit cuts this list short (`Pattern.find_eq_take`). Nothing is
passed over of a pattern whose run cannot overlap itself (`Pattern.not_passedOver_of_unbordered`).
-/

import BinaryPatch.Pattern.Search
import BinaryPatch.Pattern.Text
import BinaryPatch.Proofs.Bytes
import Mathlib.Data.List.Basic

namespace BinaryPatch
namespace Bytes

/-! ## Byte strings -/

section Occurrences

variable {b : ByteArray} {needle : List UInt8} {stop pos : Nat}

/-- An occurrence holds the bytes looked for, inside the range. -/
theorem of_mem_occurrences {q : Nat} (h : q ∈ occurrences b needle stop pos) :
    pos ≤ q ∧ q + max 1 needle.length ≤ stop ∧ holdsAt b q needle = true := by
  fun_induction occurrences b needle stop pos with
  | case1 pos hend => simp at h
  | case2 pos hend hold ih =>
    rcases List.mem_cons.1 h with rfl | h
    · exact ⟨Nat.le_refl _, by omega, hold⟩
    · obtain ⟨hpos, hrest⟩ := ih h
      exact ⟨by omega, hrest⟩
  | case3 pos hend hold ih =>
    obtain ⟨hpos, hrest⟩ := ih h
    exact ⟨by omega, hrest⟩

/-- **Occurrences do not overlap.** -/
theorem pairwise_occurrences (b : ByteArray) (needle : List UInt8) (stop pos : Nat) :
    (occurrences b needle stop pos).Pairwise fun p q => p + max 1 needle.length ≤ q := by
  fun_induction occurrences b needle stop pos with
  | case1 pos hend => exact List.Pairwise.nil
  | case2 pos hend hold ih =>
    exact List.pairwise_cons.2 ⟨fun q hq => (of_mem_occurrences hq).1, ih⟩
  | case3 pos hend hold ih => exact ih

/-- **Wherever the bytes stand, an occurrence reaches over the place.** It starts there or before,
and does not end before it. -/
theorem exists_mem_occurrences {q : Nat} (hpos : pos ≤ q) (hstop : q + max 1 needle.length ≤ stop)
    (hold : holdsAt b q needle = true) :
    ∃ p ∈ occurrences b needle stop pos, p ≤ q ∧ q < p + max 1 needle.length := by
  fun_induction occurrences b needle stop pos with
  | case1 pos hend => omega
  | case2 pos hend _ ih =>
    by_cases hq : pos + max 1 needle.length ≤ q
    · obtain ⟨p, hp, hpq⟩ := ih hq
      exact ⟨p, List.mem_cons_of_mem pos hp, hpq⟩
    · exact ⟨pos, List.mem_cons_self, hpos, by omega⟩
  | case3 pos hend hnot ih =>
    -- the bytes do not stand at `pos`, so the place in question lies behind it
    refine ih (Nat.lt_of_le_of_ne hpos ?_)
    rintro rfl
    exact hnot hold

/-- What is taken and what is not taken of the places where the bytes stand. -/
theorem mem_occurrences_iff {q : Nat} (hpos : pos ≤ q)
    (hstop : q + max 1 needle.length ≤ stop) (hold : holdsAt b q needle = true) :
    q ∈ occurrences b needle stop pos ↔
      ¬ ∃ p ∈ occurrences b needle stop pos, p < q ∧ q < p + max 1 needle.length := by
  constructor
  · rintro hq ⟨p, hp, hlt, hover⟩
    rcases List.pairwise_iff_getElem.1 (pairwise_occurrences b needle stop pos) with hsorted
    obtain ⟨m, hm, rfl⟩ := List.getElem_of_mem hp
    obtain ⟨n, hn, rfl⟩ := List.getElem_of_mem hq
    rcases Nat.lt_trichotomy m n with h | rfl | h
    · have := hsorted m n hm hn h
      omega
    · omega
    · have := hsorted n m hn hm h
      omega
  · intro hnone
    obtain ⟨p, hp, hle, hover⟩ := exists_mem_occurrences hpos hstop hold
    rcases Nat.lt_or_eq_of_le hle with hlt | rfl
    · exact absurd ⟨p, hp, hlt, hover⟩ hnone
    · exact hp

/-- A byte string is found only where it stands. -/
theorem holdsAt_of_mem_find {range : Span} {limit q : Nat}
    (h : q ∈ find b needle range limit) : holdsAt b q needle = true := by
  unfold find at h
  split at h
  · simp at h
  · rw [sweep_eq_take, List.filterMap_some] at h
    exact (of_mem_occurrences (List.mem_of_mem_take h)).2.2

end Occurrences

/-- Of ascending numbers, those up to a bound come first, so it does not matter whether the bound or
the length is imposed before. -/
theorem filter_take_of_pairwise {l : List Nat} (h : l.Pairwise (· ≤ ·)) {keep : Nat → Bool}
    (hkeep : ∀ p ∈ l, ∀ q ∈ l, p ≤ q → keep q = true → keep p = true) (n : Nat) :
    (l.take n).filter keep = (l.filter keep).take n := by
  induction l generalizing n with
  | nil => simp
  | cons p rest ih =>
    cases n with
    | zero => simp
    | succ n =>
      have hrest := ih h.of_cons (fun p hp q hq =>
        hkeep p (List.mem_cons_of_mem _ hp) q (List.mem_cons_of_mem _ hq)) n
      rw [List.take_succ_cons]
      by_cases hp : keep p = true
      · rw [List.filter_cons_of_pos hp, List.filter_cons_of_pos hp, List.take_succ_cons, hrest]
      · -- nothing that follows is kept either
        have hnone : rest.filter keep = [] := List.filter_eq_nil_iff.2 fun q hq hkept =>
          hp (hkeep p List.mem_cons_self q (List.mem_cons_of_mem _ hq)
            (List.rel_of_pairwise_cons h hq) hkept)
        rw [List.filter_cons_of_neg hp, List.filter_cons_of_neg hp, hrest, hnone, List.take_nil,
          List.take_nil]

/-- Where two may be taken and one is, there is one. -/
theorem take_eq_singleton_iff {l : List Nat} {n q : Nat} (h : 2 ≤ n) :
    l.take n = [q] ↔ l = [q] := by
  constructor
  · intro htake
    have hlength := congrArg List.length htake
    rw [List.length_take, List.length_singleton] at hlength
    rwa [List.take_of_length_le (by omega)] at htake
  · rintro rfl
    exact List.take_of_length_le (by rw [List.length_singleton]; omega)

theorem take_find (b : ByteArray) (needle : List UInt8) (range : Span) {m n : Nat}
    (h : m ≤ n) : (find b needle range n).take m = find b needle range m := by
  unfold find
  dsimp only
  split
  · rw [List.take_nil]
  · rw [sweep_eq_take, sweep_eq_take, List.take_take, Nat.min_eq_left h]

/-- What is found ascends, and does not lie before the range. -/
theorem ascending_find (b : ByteArray) (needle : List UInt8) (range : Span) (limit : Nat) :
    (find b needle range limit).Pairwise (· ≤ ·) ∧
      ∀ q ∈ find b needle range limit, range.start ≤ q := by
  unfold find
  dsimp only
  split
  · exact ⟨.nil, nofun⟩
  · rw [sweep_eq_take, List.filterMap_some]
    refine ⟨((pairwise_occurrences b needle _ _).imp fun h => by omega).sublist
      (List.take_sublist _ _), fun q hq => ?_⟩
    obtain ⟨hstart, hstop, -⟩ := of_mem_occurrences (List.mem_of_mem_take hq)
    unfold Span.clip at hstart hstop
    dsimp only at hstart hstop
    omega

/-! ### In a range -/

/-- The bytes stand at a place of a range, inside the range. -/
def StandsIn (b : ByteArray) (needle : List UInt8) (range : Span) (q : Nat) : Prop :=
  range.start ≤ q ∧ q + needle.length ≤ range.stop ∧ holdsAt b q needle = true

/-- The occurrences that a search takes in a range. -/
def occurrencesIn (b : ByteArray) (needle : List UInt8) (range : Span) : List Nat :=
  occurrences b needle (range.clip b.size).stop (range.clip b.size).start

theorem pairwise_occurrencesIn (b : ByteArray) (needle : List UInt8) (range : Span) :
    (occurrencesIn b needle range).Pairwise (· < ·) :=
  (pairwise_occurrences b needle _ _).imp fun h => by omega

section Range

variable {b : ByteArray} {needle : List UInt8} {range : Span} {q : Nat} (hneedle : needle ≠ [])
include hneedle

theorem find_eq_take (limit : Nat) :
    find b needle range limit = (occurrencesIn b needle range).take limit := by
  unfold find occurrencesIn
  dsimp only
  rw [if_neg (by simpa using hneedle), sweep_eq_take, List.filterMap_some]

theorem standsIn_of_mem_occurrencesIn (h : q ∈ occurrencesIn b needle range) :
    StandsIn b needle range q := by
  obtain ⟨hstart, hstop, hold⟩ := of_mem_occurrences h
  have hlength := List.length_pos_of_ne_nil hneedle
  unfold Span.clip at hstart hstop
  dsimp only at hstart hstop
  exact ⟨by omega, by omega, hold⟩

/-- **Every place is reached over by an occurrence** that the search takes. -/
theorem StandsIn.exists_mem_occurrencesIn (h : StandsIn b needle range q) :
    ∃ p ∈ occurrencesIn b needle range, p ≤ q ∧ q < p + needle.length := by
  obtain ⟨hstart, hstop, hold⟩ := h
  have hlength := List.length_pos_of_ne_nil hneedle
  have hsize := fits_of_holdsAt hold
  have hlo : (range.clip b.size).start ≤ q := by
    unfold Span.clip
    dsimp only
    omega
  have hhi : q + max 1 needle.length ≤ (range.clip b.size).stop := by
    unfold Span.clip
    dsimp only
    omega
  obtain ⟨p, hp, hle, hover⟩ := exists_mem_occurrences hlo hhi hold
  exact ⟨p, hp, hle, by omega⟩

end Range

/-! ### Bytes that cannot overlap themselves -/

/-- No beginning of the bytes is also an end of them, except all of them. -/
def Unbordered (w : List UInt8) : Prop :=
  ∀ k, 0 < k → k < w.length → w.drop k ≠ w.take (w.length - k)

/-- Bytes that stand at two places, less than their length apart, have a border. -/
theorem Unbordered.le_of_holdsAt {w : List UInt8} (h : Unbordered w) {b : ByteArray}
    {o o' : Nat} (ho : holdsAt b o w = true) (ho' : holdsAt b o' w = true) (hlt : o < o') :
    o + w.length ≤ o' := by
  by_contra hover
  obtain ⟨k, rfl⟩ := Nat.exists_eq_add_of_lt hlt
  refine h (k + 1) (by omega) (by omega) (List.ext_getElem? fun j => ?_)
  rw [List.getElem?_drop, List.getElem?_take]
  split
  · rename_i hj
    -- the byte at `o + (k + 1) + j` belongs to both occurrences
    rw [← ((holdsAt_iff _ _ _).1 ho).2 (k + 1 + j) (by omega),
      ← ((holdsAt_iff _ _ _).1 ho').2 j (by omega)]
    congr 1
    omega
  · exact List.getElem?_eq_none (by omega)

end Bytes

namespace Pattern

/-! ## Patterns -/

/-- **A pattern matches where each of its cells accepts the byte at its place.** -/
theorem matchesAt_iff (b : ByteArray) (o : Nat) (p : Pattern) :
    p.matchesAt b o = true ↔
      o + p.length ≤ b.size ∧
        ∀ k c, p[k]? = some c → ∃ byte, b[o + k]? = some byte ∧ Cell.accepts c byte = true := by
  induction p generalizing o with
  | nil => simp [matchesAt]
  | cons c rest ih =>
    unfold matchesAt
    by_cases ho : o < b.size
    · rw [dif_pos ho, Bool.and_eq_true, ih (o + 1), List.length_cons]
      constructor
      · rintro ⟨hc, hsize, hrest⟩
        refine ⟨by omega, fun k d hk => ?_⟩
        cases k with
        | zero =>
          obtain rfl : c = d := by simpa using hk
          exact ⟨b[o], by simp [ho], hc⟩
        | succ k =>
          rw [show o + (k + 1) = o + 1 + k by omega]
          exact hrest k d (by simpa using hk)
      · rintro ⟨hsize, hall⟩
        refine ⟨?_, by omega, fun k d hk => ?_⟩
        · obtain ⟨byte, hbyte, hacc⟩ := hall 0 c (by simp)
          simp only [Nat.add_zero, getElem?_pos b o ho, Option.some.injEq] at hbyte
          exact hbyte ▸ hacc
        · rw [show o + 1 + k = o + (k + 1) by omega]
          exact hall (k + 1) d (by simpa using hk)
    · rw [dif_neg ho, List.length_cons]
      exact iff_of_false Bool.false_ne_true fun h => by omega

theorem fits_of_matchesAt {b : ByteArray} {o : Nat} {p : Pattern} (h : p.matchesAt b o = true) :
    o + p.length ≤ b.size := ((matchesAt_iff b o p).1 h).1

/-- The literals a pattern starts with are its first cells. -/
theorem getElem?_of_literals {p : Pattern} {k : Nat} {w : UInt8} (h : p.literals[k]? = some w) :
    p[k]? = some (some w) := by
  fun_induction literals p generalizing k with
  | case1 byte rest ih =>
    cases k with
    | zero => simpa using h
    | succ k => exact ih (by simpa using h)
  | case2 p _ => simp at h

/-- **The longest run consists of the literals behind the cells it leaves out.** -/
theorem getElem?_of_longestRun {p : Pattern} {k : Nat} {w : UInt8}
    (h : p.longestRun.bytes[k]? = some w) : p[p.longestRun.lead + k]? = some (some w) := by
  induction p with
  | nil => simp [longestRun] at h
  | cons c rest ih =>
    unfold longestRun at h ⊢
    dsimp only at h ⊢
    split at h
    · rename_i hle
      rw [if_pos hle]
      simpa using getElem?_of_literals h
    · rename_i hle
      rw [if_neg hle]
      rw [show (longestRun rest).lead + 1 + k = (longestRun rest).lead + k + 1 by omega]
      exact ih h

theorem lead_add_length_le (p : Pattern) :
    p.longestRun.bytes = [] ∨ p.longestRun.lead + p.longestRun.bytes.length ≤ p.length := by
  rcases List.eq_nil_or_concat p.longestRun.bytes with h | ⟨init, w, h⟩
  · exact .inl h
  · right
    have hlast : p.longestRun.bytes[init.length]? = some w := by rw [h]; simp
    have hlt := (List.getElem?_eq_some_iff.1 (getElem?_of_longestRun hlast)).1
    rw [h, List.length_concat]
    omega

/-- Only a pattern without literals has an empty run. -/
theorem longestRun_ne_nil {p : Pattern} (h : p.all Option.isNone = false) :
    p.longestRun.bytes ≠ [] := by
  induction p with
  | nil => simp at h
  | cons c rest ih =>
    unfold longestRun
    dsimp only
    split
    · rename_i hle
      cases c with
      | some byte => simp [literals]
      | none =>
        have := ih (by simpa using h)
        simp only [literals, List.length_nil, Nat.le_zero_eq, List.length_eq_zero_iff] at hle
        exact absurd hle this
    · rename_i hle
      intro hnil
      change (longestRun rest).bytes = [] at hnil
      rw [hnil] at hle
      exact hle (Nat.zero_le _)

/-- A pattern that matches holds its run. -/
theorem holdsAt_longestRun {b : ByteArray} {o : Nat} {p : Pattern} (h : p.matchesAt b o = true)
    (hrun : p.longestRun.bytes ≠ []) :
    Bytes.holdsAt b (o + p.longestRun.lead) p.longestRun.bytes = true := by
  obtain ⟨hsize, hcells⟩ := (matchesAt_iff b o p).1 h
  have hlen := (lead_add_length_le p).resolve_left hrun
  refine (Bytes.holdsAt_iff _ _ _).2 ⟨by omega, fun k hk => ?_⟩
  have hw := List.getElem?_eq_getElem hk
  obtain ⟨byte, hbyte, hacc⟩ := hcells _ _ (getElem?_of_longestRun hw)
  have hliteral : p.longestRun.bytes[k] = byte := by simpa [Cell.accepts] using hacc
  rw [Nat.add_assoc, hbyte, hw, hliteral]

/-- The pattern matches at a place of a range, inside the range. -/
def MatchesIn (p : Pattern) (b : ByteArray) (range : Span) (s : Nat) : Prop :=
  range.start ≤ s ∧ s + p.length ≤ range.stop ∧ p.matchesAt b s = true

/-- The pattern matches at one place of a range and at no other. -/
def OnlyMatch (p : Pattern) (b : ByteArray) (range : Span) (s : Nat) : Prop :=
  p.MatchesIn b range s ∧ ∀ s', p.MatchesIn b range s' → s' = s

/-- The occurrences of the longest run that a search takes in a range. -/
def runsIn (p : Pattern) (b : ByteArray) (range : Span) : List Nat :=
  Bytes.occurrences b p.longestRun.bytes (range.clip b.size).stop (range.clip b.size).start

/-- A match whose run overlaps an occurrence of the run taken before it. -/
def PassedOver (p : Pattern) (b : ByteArray) (range : Span) (s : Nat) : Prop :=
  p.MatchesIn b range s ∧ ∃ q ∈ p.runsIn b range,
    q < s + p.longestRun.lead ∧ s + p.longestRun.lead < q + p.longestRun.bytes.length

/-- What a search without a limit finds. -/
def hits (p : Pattern) (b : ByteArray) (range : Span) : List Nat :=
  (p.runsIn b range).filterMap (p.candidate b p.longestRun.lead (range.clip b.size))

section Find

variable {p : Pattern} {b : ByteArray} {range : Span}

theorem candidate_eq_some_iff {region : Span} {lead pos s : Nat} :
    p.candidate b lead region pos = some s ↔
      pos = s + lead ∧ region.start ≤ s ∧ s + p.length ≤ region.stop ∧
        p.matchesAt b s = true := by
  unfold candidate
  dsimp only
  constructor
  · intro h
    split at h
    · rename_i hall
      cases h
      exact ⟨by omega, by omega, hall.2⟩
    · cases h
  · rintro ⟨rfl, hall⟩
    rw [Nat.add_sub_cancel, if_pos ⟨by omega, hall.2⟩]

/-- Where the pattern matches, it lies in the part of the range that the buffer has. -/
theorem matchesIn_iff_clip (hp : 0 < p.length) {s : Nat} :
    p.MatchesIn b range s ↔ (range.clip b.size).start ≤ s ∧
      s + p.length ≤ (range.clip b.size).stop ∧ p.matchesAt b s = true := by
  unfold MatchesIn Span.clip
  dsimp only
  constructor
  · rintro ⟨hstart, hstop, hmatch⟩
    have := fits_of_matchesAt hmatch
    exact ⟨by omega, by omega, hmatch⟩
  · rintro ⟨hstart, hstop, hmatch⟩
    exact ⟨by omega, by omega, hmatch⟩

theorem length_pos_of_run (hrun : p.longestRun.bytes ≠ []) :
    0 < p.longestRun.bytes.length ∧ 0 < p.length := by
  have := (lead_add_length_le p).resolve_left hrun
  have := List.length_pos_of_ne_nil hrun
  omega

/-- The run of a match lies where a search looks for it. -/
theorem run_of_matchesIn (hrun : p.longestRun.bytes ≠ []) {s : Nat}
    (h : p.MatchesIn b range s) :
    (range.clip b.size).start ≤ s + p.longestRun.lead ∧
      s + p.longestRun.lead + max 1 p.longestRun.bytes.length ≤ (range.clip b.size).stop ∧
      Bytes.holdsAt b (s + p.longestRun.lead) p.longestRun.bytes = true := by
  obtain ⟨hpos, hlen⟩ := length_pos_of_run hrun
  obtain ⟨hstart, hstop, hmatch⟩ := (matchesIn_iff_clip hlen).1 h
  have := (lead_add_length_le p).resolve_left hrun
  exact ⟨by omega, by omega, holdsAt_longestRun hmatch hrun⟩

/-- **Found are the matches that are not passed over.** -/
theorem mem_hits_iff (hrun : p.longestRun.bytes ≠ []) {s : Nat} :
    s ∈ p.hits b range ↔ p.MatchesIn b range s ∧ ¬ p.PassedOver b range s := by
  obtain ⟨hpos, hlen⟩ := length_pos_of_run hrun
  have hmem : s ∈ p.hits b range ↔
      s + p.longestRun.lead ∈ p.runsIn b range ∧ p.MatchesIn b range s := by
    unfold hits
    rw [List.mem_filterMap, matchesIn_iff_clip hlen]
    constructor
    · rintro ⟨pos, hmem, hcand⟩
      obtain ⟨rfl, hmatch⟩ := candidate_eq_some_iff.1 hcand
      exact ⟨hmem, hmatch⟩
    · rintro ⟨hmem, hmatch⟩
      exact ⟨_, hmem, candidate_eq_some_iff.2 ⟨rfl, hmatch⟩⟩
  rw [hmem, and_comm]
  refine and_congr_right fun hin => ?_
  obtain ⟨hlo, hhi, hold⟩ := run_of_matchesIn hrun hin
  unfold runsIn PassedOver
  rw [Bytes.mem_occurrences_iff hlo hhi hold, Nat.max_eq_right hpos]
  exact not_congr ⟨fun h => ⟨hin, h⟩, fun h => h.2⟩

/-- Hits ascend. -/
theorem pairwise_hits (p : Pattern) (b : ByteArray) (range : Span) :
    (p.hits b range).Pairwise (· < ·) := by
  unfold hits
  refine List.Pairwise.filterMap _ ?_ (Bytes.pairwise_occurrences b _ _ _)
  intro pos pos' hapart s hs s' hs'
  obtain ⟨hpos, -⟩ := candidate_eq_some_iff.1 hs
  obtain ⟨hpos', -⟩ := candidate_eq_some_iff.1 hs'
  omega

/-- **Nothing is passed over of a pattern whose run cannot overlap itself.** -/
theorem not_passedOver_of_unbordered (hrun : p.longestRun.bytes ≠ [])
    (h : Bytes.Unbordered p.longestRun.bytes) (s : Nat) :
    ¬ p.PassedOver b range s := by
  rintro ⟨hmatch, q, hq, hlt, hover⟩
  have hfirst := (Bytes.of_mem_occurrences hq).2.2
  have := h.le_of_holdsAt hfirst (run_of_matchesIn hrun hmatch).2.2 hlt
  omega

/-- **A limit cuts the list of hits short.** -/
theorem find_eq_take (hrun : p.longestRun.bytes ≠ []) (limit : Nat) :
    p.find b range limit = (p.hits b range).take (max 1 limit) := by
  unfold find
  dsimp only
  split
  · rename_i hshort
    -- no hit fits into a range that is shorter than the pattern
    have hnil : p.hits b range = [] := by
      refine List.eq_nil_iff_forall_not_mem.2 fun s hs => ?_
      have hmatch := ((mem_hits_iff hrun).1 hs).1
      obtain ⟨hstart, hstop, -⟩ := (matchesIn_iff_clip (length_pos_of_run hrun).2).1 hmatch
      rcases hshort with hempty | hshort
      · exact hrun (List.isEmpty_iff.1 hempty)
      · unfold Span.length at hshort
        omega
    rw [hnil, List.take_nil]
  · exact Bytes.sweep_eq_take _ _ _ _ _ _

theorem find_of_run_eq_nil (hrun : p.longestRun.bytes = []) (limit : Nat) :
    p.find b range limit = [] := by
  unfold find
  simp [hrun]

/-- A search that may find nothing finds nothing exactly when there is no hit. -/
theorem find_eq_nil_iff (hrun : p.longestRun.bytes ≠ []) {limit : Nat} :
    p.find b range limit = [] ↔ p.hits b range = [] := by
  rw [find_eq_take hrun, List.take_eq_nil_iff]
  exact or_iff_right (by omega)

/-- **A search that may find two places finds one exactly when there is one hit.** -/
theorem find_eq_singleton_iff (hrun : p.longestRun.bytes ≠ []) {limit s : Nat} (h : 2 ≤ limit) :
    p.find b range limit = [s] ↔ p.hits b range = [s] := by
  rw [find_eq_take hrun, Bytes.take_eq_singleton_iff (by omega)]

end Find

theorem take_find (b : ByteArray) (p : Pattern) (range : Span) {m n : Nat} (hm : 1 ≤ m)
    (h : m ≤ n) : (p.find b range n).take m = p.find b range m := by
  unfold find
  dsimp only
  split
  · rw [List.take_nil]
  · rw [Bytes.sweep_eq_take, Bytes.sweep_eq_take, List.take_take]
    congr 1
    omega

end Pattern
end BinaryPatch
