/-
# Searching a buffer

A search walks a range from left to right and takes the occurrences of a byte string that
do not overlap: after one it goes on behind it. A pattern is found through its longest run
of literals. Each occurrence of the run is a candidate, kept when the whole pattern matches
around it, so a match whose run overlaps an earlier occurrence of the run can be passed over.

Searches stop at a limit. For patterns a limit of `0` counts as `1`; for byte strings it
leaves nothing.
-/

import BinaryPatch.Pattern.Basic

namespace BinaryPatch

/-- A range of offsets, the end excluded. -/
structure Span where
  start : Nat
  stop : Nat
  deriving DecidableEq

namespace Span

/-- The part of a range that lies inside a buffer of the given size. -/
def clip (s : Span) (size : Nat) : Span :=
  let stop := min s.stop size
  ⟨min s.start stop, stop⟩

/-- The number of offsets in a range. -/
def length (s : Span) : Nat := s.stop - s.start

end Span

namespace Bytes

/-- The occurrences of `needle` from `pos` on that end by `stop` and do not overlap. -/
def occurrences (b : ByteArray) (needle : List UInt8) (stop pos : Nat) : List Nat :=
  if stop < pos + max 1 needle.length then []
  else if holdsAt b pos needle then
    pos :: occurrences b needle stop (pos + max 1 needle.length)
  else occurrences b needle stop (pos + 1)
termination_by stop - pos
decreasing_by all_goals omega

/-- The first `limit` answers that `pick` gives for the occurrences of `needle` from `pos`
on. Equal to `((occurrences b needle stop pos).filterMap pick).take limit`, found without
searching further than needed. -/
def sweep (b : ByteArray) (needle : List UInt8) (stop : Nat) (pick : Nat → Option Nat)
    (limit pos : Nat) : List Nat :=
  if limit = 0 ∨ stop < pos + max 1 needle.length then []
  else if holdsAt b pos needle then
    match pick pos with
    | some found => found :: sweep b needle stop pick (limit - 1) (pos + max 1 needle.length)
    | none => sweep b needle stop pick limit (pos + max 1 needle.length)
  else sweep b needle stop pick limit (pos + 1)
termination_by stop - pos
decreasing_by all_goals omega

/-- **A sweep is a search cut short.** -/
theorem sweep_eq_take (b : ByteArray) (needle : List UInt8) (stop : Nat)
    (pick : Nat → Option Nat) (limit pos : Nat) :
    sweep b needle stop pick limit pos =
      ((occurrences b needle stop pos).filterMap pick).take limit := by
  fun_induction sweep b needle stop pick limit pos with
  | case1 limit pos h =>
    rcases h with rfl | h
    · simp
    · rw [occurrences, if_pos h]; simp
  | case2 limit pos h hold found hp ih =>
    obtain ⟨n, rfl⟩ : ∃ n, limit = n + 1 := ⟨limit - 1, by omega⟩
    rw [occurrences, if_neg (by omega), if_pos hold, ih]
    simp [hp]
  | case3 limit pos h hold hp ih =>
    rw [occurrences, if_neg (by omega), if_pos hold, ih]
    simp [hp]
  | case4 limit pos h hold ih =>
    rw [occurrences, if_neg (by omega), if_neg hold, ih]

/-- The first `limit` occurrences of a byte string in a range; an empty one has none. -/
def find (b : ByteArray) (needle : List UInt8) (range : Span) (limit : Nat) : List Nat :=
  let region := range.clip b.size
  if needle.isEmpty then [] else sweep b needle region.stop some limit region.start

end Bytes

namespace Pattern

/-- Where the pattern starts when its longest run stands at `pos`, if it then lies inside
the region and matches. -/
def candidate (b : ByteArray) (p : Pattern) (lead : Nat) (region : Span) (pos : Nat) :
    Option Nat :=
  let start := pos - lead
  if region.start + lead ≤ pos ∧ start + p.length ≤ region.stop ∧ p.matchesAt b start then
    some start
  else none

/-- The first `limit` places (at least one) at which a pattern is found inside a range. -/
def find (b : ByteArray) (p : Pattern) (range : Span) (limit : Nat) : List Nat :=
  let region := range.clip b.size
  let run := p.longestRun
  if run.bytes.isEmpty ∨ region.length < p.length then []
  else
    Bytes.sweep b run.bytes region.stop (p.candidate b run.lead region) (max 1 limit)
      region.start

end Pattern
end BinaryPatch
