/-
# Images

An image is a module file held in memory: the buffer, the store it was loaded from and will
be persisted to, and what the header says. Writes touch the buffer only, and make the image
dirty; `flush` replaces the stored bytes in one step.

A store counts how often it was persisted, and may be set to refuse. A refused persist
leaves it as it was.
-/

import BinaryPatch.Fault

namespace BinaryPatch

/-- Where the bytes of an image are kept. -/
structure Store where
  bytes : ByteArray
  persists : Nat := 0
  /-- What persisting fails with, if it does. -/
  fault : Option StorageFault := none

namespace Store

/-- Replace the stored bytes. -/
def persist (s : Store) (bytes : ByteArray) : Except StorageFault Store :=
  match s.fault with
  | some fault => .error fault
  | none => .ok { s with bytes := bytes, persists := s.persists + 1 }

/-- The text that stands for a store held in memory. -/
def describe (s : Store) : String := s!"<memory: {s.bytes.size} bytes>"

end Store

/-- A module file in memory. -/
structure Image where
  store : Store
  buffer : ByteArray
  container : Container
  /-- Whether writes have been staged since the last flush. -/
  dirty : Bool := false

namespace Image

/-- Load an image. -/
def load (store : Store) : Except Fault Image :=
  match Container.detect store.bytes with
  | .error fault => .error (.container fault)
  | .ok container => .ok { store, buffer := store.bytes, container }

/-- The number of bytes of an image. -/
@[grind =]
def size (i : Image) : Nat := i.buffer.size

/-- The slices, the primary one first. -/
def slices (i : Image) : List Slice := i.container.slices

/-- The primary slice. -/
def primary (i : Image) : Slice := i.container.primary

/-- The slice of a platform. -/
def slice? (i : Image) (platform : Platform) : Option Slice :=
  i.slices.find? fun s => s.platform = platform

/-- Whether the image has a slice of the platform. -/
def hasSlice (i : Image) (platform : Platform) : Bool := (i.slice? platform).isSome

/-- Whether `length` bytes at `offset` lie inside the image. -/
def inside (i : Image) (offset length : Nat) : Bool := offset + length ≤ i.size

/-- The bytes of a range, all of which must lie inside the image. -/
def read (i : Image) (offset length : Nat) : Except SiteFault (List UInt8) :=
  if i.inside offset length then .ok (Bytes.window i.buffer offset length)
  else .error (.outOfRange offset length i.size)

/-- Stage bytes at an offset. An image never grows. -/
def write (i : Image) (offset : Nat) (bytes : List UInt8) : Except SiteFault Image :=
  if i.inside offset bytes.length then
    .ok { i with buffer := Bytes.overwrite i.buffer offset bytes, dirty := true }
  else .error (.outOfRange offset bytes.length i.size)

/-- Persist the buffer. -/
def flush (i : Image) : Except StorageFault Image :=
  match i.store.persist i.buffer with
  | .error fault => .error fault
  | .ok store => .ok { i with store, dirty := false }

/-- Let later flushes fail, or work again. -/
def setFault (i : Image) (fault : Option StorageFault) : Image :=
  { i with store := { i.store with fault } }

/-- The file offset of an address relative to the image base, through the primary slice. -/
def toOffset (i : Image) (va : Nat) : Except SiteFault Nat :=
  match i.primary.toOffset va with
  | some offset => .ok offset
  | none => .error (.outOfRange va 0 i.size)

/-- The file offset of an absolute address. -/
def absoluteToOffset (i : Image) (va : Nat) : Except SiteFault Nat :=
  match Addressing.subWord va i.container.imageBase with
  | some relative => i.toOffset relative
  | none => .error (.outOfRange va 0 i.size)

/-- The address of a file offset, through the primary slice. -/
def toAddress (i : Image) (offset : Nat) : Option Nat := i.primary.toAddress offset

end Image
end BinaryPatch
