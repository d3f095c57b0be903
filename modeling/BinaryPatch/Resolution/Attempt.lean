/-
# Attempts that failed

A target is looked for in several phases. One that yields no offset leaves an attempt
behind: the phase, and the obstacle it met. A target without an offset is reported with its
attempts in the order in which they were made.
-/

import BinaryPatch.Text.Layout
import BinaryPatch.Text.Numeral

namespace BinaryPatch

/-- The phases of a resolution. -/
inductive Phase where
  | directSignature
  | derivation
  | fuzzyWindow
  | crossValidation
  deriving DecidableEq

namespace Phase

/-- The name of a phase for readers. -/
def label : Phase → String
  | directSignature => "direct signature"
  | derivation => "derivation"
  | fuzzyWindow => "fuzzy window"
  | crossValidation => "cross-validation"

/-- The name of a phase in saved reports. -/
def tag : Phase → String
  | directSignature => "direct_signature"
  | derivation => "derivation"
  | fuzzyWindow => "fuzzy_window"
  | crossValidation => "cross_validation"

end Phase

/-- What kept a phase from yielding an offset. -/
inductive Obstacle where
  | noSignature
  | noMatch
  /-- More than one candidate; only the first of them are kept. -/
  | ambiguous (offsets : List Nat)
  /-- The only candidate reaches out of the slice. -/
  | outOfRange (offset length size : Nat)
  /-- No rule leads to the target from one that has an offset. -/
  | noDerivation
  /-- No derived candidate looks like the target. -/
  | inconsistent (candidates : List Nat)
  /-- Derived candidates that look like the target differ. -/
  | conflicting (candidates : List Nat)
  | noWindow
  | skippedAfterAmbiguity
  /-- Two offsets differ by something else than their rule says. -/
  | deltaViolation (source dest : String) (expected actual : Int)
  /-- The offset was derived from one that has been withdrawn. -/
  | sourceUnresolved (source : String)
  deriving DecidableEq

/-- Offsets in hexadecimal, separated by commas. -/
def offsetList (offsets : List Nat) : String := Text.commaList (offsets.map Text.lowerHex)

namespace Obstacle

/-- The wording of each obstacle. -/
def message : Obstacle → String
  | noSignature => "no signature"
  | noMatch => "no match"
  | ambiguous offsets => s!"ambiguous: {offsetList offsets}"
  | outOfRange offset length _ =>
    s!"{Text.lowerHex offset}+{Text.lowerHex length} outside scan range"
  | noDerivation => "no resolved derivation source"
  | inconsistent candidates => s!"inconsistent candidate(s) {offsetList candidates}"
  | conflicting candidates => s!"rules disagree: {offsetList candidates}"
  | noWindow => "no window centre available"
  | skippedAfterAmbiguity => "skipped after ambiguous scan"
  | deltaViolation source dest expected actual =>
    s!"{source} -> {dest} is {Text.signedHex actual}, rule says {Text.signedHex expected}"
  | sourceUnresolved source => s!"derivation source {source} became unresolved"

end Obstacle

/-- A phase that yielded no offset, and why. -/
structure Attempt where
  phase : Phase
  obstacle : Obstacle
  deriving DecidableEq

namespace Attempt

/-- One line about an attempt. -/
def message (a : Attempt) : String := s!"{a.phase.label}: {a.obstacle.message}"

end Attempt

/-- A target without an offset. -/
structure Unresolved where
  targetId : String
  attempts : List Attempt
  deriving DecidableEq

namespace Unresolved

/-- Every attempt on one line. -/
def summary (u : Unresolved) : String := "; ".intercalate (u.attempts.map Attempt.message)

end Unresolved
end BinaryPatch
