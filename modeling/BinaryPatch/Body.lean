/-
# Function bodies

A body is machine code compiled elsewhere for the slot of a target. It is never shortened: it
must fit its own limit and the slot. What it leaves free of the slot is padded with the
no-operation instruction of the architecture, laid out from the start of the slot, so that
wide instructions keep their alignment.
-/

import BinaryPatch.Fault

namespace BinaryPatch

/-- A compiled function body. -/
structure Body where
  targetId : String
  code : List UInt8
  maxLength : Nat
  /-- The platform it was compiled for; without one it is offered to every slice. -/
  platform : Option Platform := none
  deriving DecidableEq

namespace Body

/-- Whether the body is meant for a target on a platform. -/
def fits (b : Body) (targetId : String) (platform : Platform) : Bool :=
  b.targetId == targetId &&
    match b.platform with
    | some p => p = platform
    | none => true

/-- The padding byte at a position of a slot. -/
def padding (arch : Arch) (position : Nat) : UInt8 :=
  arch.nop.getD (position % arch.nop.length) 0

/-- The padding from one position of a slot up to another. -/
def paddingFrom (arch : Arch) (start stop : Nat) : List UInt8 :=
  (List.range' start (stop - start)).map (padding arch)

/-- The content of a slot that holds the body. -/
def spliceInto (b : Body) (slotLength : Nat) (arch : Arch) : Except Fault (List UInt8) :=
  let limit := min b.maxLength slotLength
  if b.code.isEmpty then .error (.bodyEmpty b.targetId)
  else if limit < b.code.length then .error (.bodyTooLong b.targetId b.code.length limit)
  else .ok (b.code ++ paddingFrom arch b.code.length slotLength)

/-- The content of a slot as long as the body may be, padded for its platform, or for
x86-64 if it has none. -/
def splice (b : Body) : Except Fault (List UInt8) :=
  b.spliceInto b.maxLength ((b.platform.map Platform.arch).getD .x86_64)

/-- Whether a slot ends in padding. -/
def isPadded (slot : List UInt8) (arch : Arch) : Bool :=
  slot.getLast? = some (padding arch (slot.length - 1))

end Body
end BinaryPatch
