/-
# Recognising a container

Four container formats hold a loadable module. The first sixteen bytes say which one a file
is, and a few header fields say whether it is a module for a known platform:

| format | recognised by | checked fields | slices |
| --- | --- | --- | --- |
| PE | `MZ` | `PE\0\0` at the offset stored at `0x3C`, optional header magic | the file, addresses less `0xC00` |
| ELF | `\x7FELF` | type `3` (shared object) at 16 | the file |
| Mach-O | `FEEDFACE`, `FEEDFACF` in either byte order | cpu type at 4, file type at 12 | the file |
| Mach-O universal | `CAFEBABE` | the same fields of each architecture it lists | one per architecture |

A universal file lists its architectures as big-endian entries of twenty bytes. The x86-64
slice, when there is one, must start at `0x4000` and comes first; an arm64 slice follows.
-/

import BinaryPatch.Image.Slice
import BinaryPatch.Text.Numeral

namespace BinaryPatch

/-- The order in which the bytes of a field stand. -/
inductive ByteOrder where
  | little
  | big
  deriving DecidableEq

/-- What the first bytes of a file announce. -/
inductive Hint where
  | pe
  | elf (order : ByteOrder)
  | machO (order : ByteOrder)
  | universal
  | archive
  | te
  | coff
  /-- Nothing known; the first eight bytes as a little-endian number. -/
  | unknown (magic : Nat)
  deriving DecidableEq

/-- The two architectures that a universal file is searched for. -/
inductive CpuType where
  | x86_64
  | arm64
  deriving DecidableEq

namespace CpuType

/-- The code of an architecture in a header. -/
def code : CpuType → Nat
  | x86_64 => 0x01000007
  | arm64 => 0x0100000C

/-- The name of an architecture in messages. -/
def name : CpuType → String
  | x86_64 => "x86_64"
  | arm64 => "arm64"

/-- The platform of a slice whose header carries this code. -/
def platform : CpuType → Platform
  | x86_64 => .macos
  | arm64 => .macosArm64

/-- The architecture of a code. -/
def ofCode? (code : Nat) : Option CpuType :=
  if code = x86_64.code then some x86_64
  else if code = arm64.code then some arm64
  else none

end CpuType

/-- Why a file is no module of a known kind. -/
inductive ContainerFault where
  | tooShort (size : Nat)
  | unsupported (hint : Hint)
  | truncatedField (offset : Nat)
  | missingPeSignature (offset : Nat)
  | unknownOptionalMagic (magic : Nat)
  | notSharedObject (type : Nat)
  | tooManyArchitectures (count : Nat)
  /-- The list of architectures breaks off inside a field, of which `left` bytes are there. -/
  | truncatedArchitecture (left : Nat)
  | misplacedSlice (start : Nat)
  | slicePastEnd (cpu : CpuType)
  | badSliceMagic (cpu : CpuType) (magic : Nat)
  | noKnownArchitecture
  | unknownCpuType (code : Nat)
  | notLoadable (fileType : Nat)
  deriving DecidableEq

/-- The bytes that announce a container. -/
def headerSize : Nat := 16

/-- Where the x86-64 slice of a universal file must start. -/
def x86SliceStart : Nat := 0x4000

/-- How far addresses of a PE code section lie above its file offsets. -/
def peTextAdjustment : Nat := 0xC00

namespace ContainerFault

/-- The name of a hint that no format goes with. -/
def hintName : Hint → String
  | .pe => "PE"
  | .elf _ => "Elf"
  | .machO _ => "Mach"
  | .universal => "MachFat"
  | .archive => "Archive"
  | .te => "TE"
  | .coff => "COFF"
  | .unknown magic => s!"Unknown({magic})"

/-- The wording of each fault. -/
def message : ContainerFault → String
  | tooShort size => s!"file is {size} bytes, header needs {headerSize}"
  | unsupported hint => s!"unsupported container {hintName hint}"
  | truncatedField offset => s!"header field at {Text.lowerHex offset} is truncated"
  | missingPeSignature offset => s!"missing PE signature at {Text.lowerHex offset}"
  | unknownOptionalMagic magic =>
    s!"unknown PE optional header magic {Text.lowerHex magic}"
  | notSharedObject type => s!"ELF type {type} is not a position-independent shared object"
  | tooManyArchitectures count => s!"Buffer is too short for {count} arches"
  | truncatedArchitecture left => s!"type is too big (4) for {left}"
  | misplacedSlice start =>
    s!"x86_64 slice at {Text.lowerHex start}, expected {Text.lowerHex x86SliceStart}"
  | slicePastEnd cpu => s!"{cpu.name} slice extends past end of file"
  | badSliceMagic cpu magic => s!"{cpu.name} slice has bad Mach-O magic {Text.lowerHex magic}"
  | noKnownArchitecture => "universal binary has neither an x86_64 nor an arm64 slice"
  | unknownCpuType code =>
    s!"Mach-O cpu type {Text.lowerHex code} is neither x86_64 nor arm64"
  | notLoadable fileType => s!"Mach-O file type {fileType} is not a loadable module"

end ContainerFault

/-- The container formats that hold a module. -/
inductive ContainerFormat where
  | pe
  | elf
  | machO
  | universal
  deriving DecidableEq

namespace ContainerFormat

/-- The name of a format for readers. -/
def label : ContainerFormat → String
  | pe => "PE"
  | elf => "ELF"
  | machO => "Mach-O"
  | universal => "Mach-O universal"

/-- The name of a format in saved reports. -/
def tag : ContainerFormat → String
  | pe => "Pe"
  | elf => "Elf"
  | machO => "MachO"
  | universal => "MachOUniversal"

end ContainerFormat

/-- What the header of a file says about it. -/
structure Container where
  format : ContainerFormat
  imageBase : Nat
  primary : Slice
  others : List Slice := []
  deriving DecidableEq

namespace Header

/-- The value of bytes in an order. -/
def number (order : ByteOrder) (bytes : List UInt8) : Nat :=
  match order with
  | .big => bytes.foldl (fun value b => value * 256 + b.toNat) 0
  | .little => bytes.foldr (fun b value => value * 256 + b.toNat) 0

/-- The value of a field of `width` bytes. -/
def field (b : ByteArray) (offset width : Nat) (order : ByteOrder) :
    Except ContainerFault Nat :=
  if offset + width ≤ b.size then .ok (number order (Bytes.window b offset width))
  else .error (.truncatedField offset)

/-- What the first sixteen bytes announce. -/
def hint (head : List UInt8) : Hint :=
  let first4 := head.take 4
  let first2 := number .little (head.take 2)
  let magic := number .big first4
  if first4 = [0x7F, 0x45, 0x4C, 0x46] then
    .elf (if head[5]? = some 1 then .little else .big)
  else if head.take 8 = [0x21, 0x3C, 0x61, 0x72, 0x63, 0x68, 0x3E, 0x0A] then .archive
  else if first2 = 0x5A4D then .pe
  else if first2 = 0x5A56 then .te
  else if first2 = 0x14C ∨ first2 = 0x8664 ∨ first2 = 0xAA64 then .coff
  else if magic = 0xFEEDFACE ∨ magic = 0xFEEDFACF then .machO .big
  else if magic = 0xCEFAEDFE ∨ magic = 0xCFFAEDFE then .machO .little
  else if magic = 0xCAFEBABE then .universal
  else .unknown (number .little (head.take 8))

/-- The platform of the Mach-O header at `base`, if it belongs to a loadable module. -/
def machOPlatform (b : ByteArray) (base : Nat) (order : ByteOrder) :
    Except ContainerFault Platform := do
  let code ← field b (base + 4) 4 order
  match CpuType.ofCode? code with
  | none => .error (.unknownCpuType code)
  | some cpu =>
    let fileType ← field b (base + 12) 4 order
    if fileType = 8 ∨ fileType = 6 then .ok cpu.platform else .error (.notLoadable fileType)

/-- One architecture of a universal file. -/
structure Architecture where
  cpuType : Nat
  offset : Nat
  size : Nat
  deriving DecidableEq

/-- The entries that list the architectures from `offset` on. Each has five fields of four
bytes, and the first that the file does not hold whole is a fault. -/
def architectures (b : ByteArray) (offset : Nat) :
    (count : Nat) → Except ContainerFault (List Architecture)
  | 0 => .ok []
  | count + 1 =>
    if offset + 20 ≤ b.size then
      let value := fun i => number .big (Bytes.window b (offset + 4 * i) 4)
      (architectures b (offset + 20) count).map (⟨value 0, value 2, value 3⟩ :: ·)
    else .error (.truncatedArchitecture ((b.size - offset) % 4))

/-- The slice of one architecture. -/
def archSlice (b : ByteArray) (cpu : CpuType) (arch : Architecture) :
    Except ContainerFault Slice := do
  if cpu = .x86_64 ∧ arch.offset ≠ x86SliceStart then
    .error (.misplacedSlice arch.offset)
  else if b.size < arch.offset + arch.size then .error (.slicePastEnd cpu)
  else
    let magic ← field b arch.offset 4 .little
    let order ←
      if magic = 0xFEEDFACF ∨ magic = 0xFEEDFACE then .ok ByteOrder.little
      else if magic = 0xCFFAEDFE ∨ magic = 0xCEFAEDFE then .ok ByteOrder.big
      else .error (.badSliceMagic cpu magic)
    let platform ← machOPlatform b arch.offset order
    .ok ⟨platform, .sliceRelative arch.offset, ⟨arch.offset, arch.offset + arch.size⟩⟩

/-- The slices of the listed architectures that are wanted, in the order wanted. -/
def archSlices (b : ByteArray) (listed : List Architecture) :
    List CpuType → Except ContainerFault (List Slice)
  | [] => .ok []
  | cpu :: rest =>
    match listed.find? fun arch => arch.cpuType = cpu.code with
    | none => archSlices b listed rest
    | some arch => do
      let slice ← archSlice b cpu arch
      let slices ← archSlices b listed rest
      .ok (slice :: slices)

end Header

namespace Container

open Header

/-- The slices, the primary one first. -/
def slices (c : Container) : List Slice := c.primary :: c.others

/-- Read the headers of a PE file. -/
def ofPe (b : ByteArray) : Except ContainerFault Container := do
  let start ← field b 0x3C 4 .little
  let signature ← field b start 4 .little
  if signature ≠ 0x4550 then .error (.missingPeSignature start)
  else
    let optional := start + 24
    let magic ← field b optional 2 .little
    let base ←
      if magic = 0x20B then field b (optional + 24) 8 .little
      else if magic = 0x10B then field b (optional + 28) 4 .little
      else .error (.unknownOptionalMagic magic)
    .ok ⟨.pe, base, .whole .windows (.headerAdjusted peTextAdjustment) b.size, []⟩

/-- Read the header of an ELF file. -/
def ofElf (b : ByteArray) (order : ByteOrder) : Except ContainerFault Container := do
  let type ← field b 16 2 order
  if type ≠ 3 then .error (.notSharedObject type)
  else .ok ⟨.elf, 0, .whole .linux .identity b.size, []⟩

/-- Read the header of a Mach-O file for one architecture. -/
def ofMachO (b : ByteArray) (order : ByteOrder) : Except ContainerFault Container := do
  let platform ← machOPlatform b 0 order
  .ok ⟨.machO, 0, .whole platform .identity b.size, []⟩

/-- Read the headers of a universal file. -/
def ofUniversal (b : ByteArray) : Except ContainerFault Container := do
  let count := number .big (Bytes.window b 4 4)
  if b.size / 20 < count then .error (.tooManyArchitectures count)
  else
    let listed ← architectures b 8 count
    match ← archSlices b listed [.x86_64, .arm64] with
    | [] => .error .noKnownArchitecture
    | primary :: others => .ok ⟨.universal, 0, primary, others⟩

/-- Recognise the container that a file is. -/
def detect (b : ByteArray) : Except ContainerFault Container :=
  if b.size < headerSize then .error (.tooShort b.size)
  else
    match hint (Bytes.window b 0 headerSize) with
    | .pe => ofPe b
    | .elf order => ofElf b order
    | .machO order => ofMachO b order
    | .universal => ofUniversal b
    | other => .error (.unsupported other)

end Container
end BinaryPatch
