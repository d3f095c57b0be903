/-
# Slices of a module file

A slice is the code of one platform inside a module file: a range of file offsets, and how
a virtual address (relative to the image base) becomes an offset.

| addressing | offset of address `a` |
| --- | --- |
| `headerAdjusted k` | `a - k` |
| `identity` | `a` |
| `sliceRelative k` | `a + k` |

Addresses and offsets are 64-bit words: an address whose sum or difference is none has no
offset, and the other way round.
-/

import BinaryPatch.Pattern.Search
import BinaryPatch.Platform

namespace BinaryPatch

/-- One more than the largest 64-bit word. -/
def wordLimit : Nat := UInt64.size

/-- The largest 64-bit word. -/
def maxWord : Nat := wordLimit - 1

/-- How a virtual address becomes a file offset. -/
inductive Addressing where
  | headerAdjusted (adjust : Nat)
  | identity
  | sliceRelative (start : Nat)
  deriving DecidableEq

namespace Addressing

/-- The sum, if it is a word. -/
def addWord (a b : Nat) : Option Nat := if a + b < wordLimit then some (a + b) else none

/-- The difference, if it is a word. -/
def subWord (a b : Nat) : Option Nat := if b ≤ a then some (a - b) else none

/-- The file offset of an address. -/
def toOffset (t : Addressing) (va : Nat) : Option Nat :=
  match t with
  | headerAdjusted adjust => subWord va adjust
  | identity => some va
  | sliceRelative start => addWord va start

/-- The address of a file offset. -/
def toAddress (t : Addressing) (offset : Nat) : Option Nat :=
  match t with
  | headerAdjusted adjust => addWord offset adjust
  | identity => some offset
  | sliceRelative start => subWord offset start

end Addressing

/-- The code of one platform inside a file. -/
structure Slice where
  platform : Platform
  addressing : Addressing
  /-- The file offsets that belong to the slice. -/
  range : Span
  deriving DecidableEq

namespace Slice

/-- The slice of a file that holds one platform alone. -/
def whole (platform : Platform) (addressing : Addressing) (size : Nat) : Slice :=
  ⟨platform, addressing, ⟨0, size⟩⟩

/-- The file offset of an address, if it falls inside the slice. -/
def toOffset (s : Slice) (va : Nat) : Option Nat :=
  (s.addressing.toOffset va).filter fun offset =>
    s.range.start ≤ offset && offset < s.range.stop

/-- The address of a file offset. -/
def toAddress (s : Slice) (offset : Nat) : Option Nat := s.addressing.toAddress offset

/-- Whether `length` bytes at `offset` lie inside the slice. -/
def contains (s : Slice) (offset length : Nat) : Bool :=
  s.range.start ≤ offset && offset + length ≤ s.range.stop

end Slice
end BinaryPatch
