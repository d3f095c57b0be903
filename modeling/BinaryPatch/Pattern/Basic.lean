/-
# Byte patterns

A pattern is a row of cells, each a literal byte or a wildcard. It matches at a place of a
buffer when every cell lies inside the buffer and every literal stands at its place. The
longest run of literals is what a search looks for first.

A pattern describes a site before it is patched; `overlay` gives the form it has
afterwards, in which the literals under the written bytes have changed.
-/

import BinaryPatch.Bytes

namespace BinaryPatch

/-- A literal byte, or `none` for a wildcard. -/
abbrev Cell := Option UInt8

/-- A row of cells. -/
abbrev Pattern := List Cell

namespace Cell

/-- The most cells that one list can hold. A cell takes two bytes, and no list takes more than the
largest signed word. -/
def limit : Nat := 0x7FFFFFFFFFFFFFFF / 2

/-- Whether a byte is one the cell stands for. -/
def accepts (c : Cell) (b : UInt8) : Bool :=
  match c with
  | some literal => literal == b
  | none => true

/-- The cell once something has been written over it: a literal becomes what is written,
a wildcard stays one. -/
def under (written : Cell) (c : Cell) : Cell := if c.isSome then written else none

end Cell

namespace Pattern

/-- Whether the pattern matches at `offset`, every cell inside the buffer. -/
def matchesAt (b : ByteArray) (offset : Nat) : Pattern → Bool
  | [] => offset ≤ b.size
  | c :: rest =>
    if h : offset < b.size then Cell.accepts c b[offset] && matchesAt b (offset + 1) rest
    else false

/-- The literals a pattern starts with. -/
def literals : Pattern → List UInt8
  | some b :: rest => b :: literals rest
  | _ => []

/-- A run of literals and how many cells stand before it. -/
structure Run where
  lead : Nat
  bytes : List UInt8
  deriving DecidableEq

/-- The longest run of literals, the first of equals. No run is shorter than the empty
one, which stands for a pattern without literals. -/
def longestRun : Pattern → Run
  | [] => ⟨0, []⟩
  | c :: rest =>
    let later := longestRun rest
    let here := literals (c :: rest)
    if later.bytes.length ≤ here.length then ⟨0, here⟩ else ⟨later.lead + 1, later.bytes⟩

/-- The pattern with cells laid over it from `anchor` on. -/
def layOver : Pattern → Nat → List Cell → Pattern
  | [], _, _ => []
  | p, _, [] => p
  | c :: rest, 0, w :: written => Cell.under w c :: layOver rest 0 written
  | c :: rest, anchor + 1, written => c :: layOver rest anchor written

/-- The form a pattern takes once `written` stands `anchor` cells after its start, or
`none` when every literal stays as it is. -/
def overlay (p : Pattern) (anchor : Nat) (written : List Cell) : Option Pattern :=
  let q := layOver p anchor written
  if q = p then none else some q

end Pattern
end BinaryPatch
