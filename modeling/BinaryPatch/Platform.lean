/-
# Platforms

A module is built for one of four platforms, of two architectures. Platforms have an order,
in which they are listed wherever something has one entry per platform. `PerPlatform` is
such a table: at most one value for each of them.
-/

import BinaryPatch.Bytes

namespace BinaryPatch

/-- An instruction set. -/
inductive Arch where
  | x86_64
  | arm64
  deriving DecidableEq

namespace Arch

/-- The name of an architecture. -/
def name : Arch → String
  | x86_64 => "x86_64"
  | arm64 => "arm64"

/-- The instruction that fills unused code bytes. -/
def nop : Arch → List UInt8
  | x86_64 => [0x90]
  | arm64 => [0x1F, 0x20, 0x03, 0xD5]

end Arch

/-- A platform that a module is built for. -/
inductive Platform where
  | windows
  | linux
  | macos
  | macosArm64
  deriving DecidableEq

namespace Platform

/-- Every platform, in order. -/
def all : List Platform := [windows, linux, macos, macosArm64]

/-- The name of a platform. -/
def name : Platform → String
  | windows => "windows"
  | linux => "linux"
  | macos => "macos"
  | macosArm64 => "macos-arm64"

/-- The platform of a name. -/
def ofName? (text : String) : Option Platform := all.find? fun p => p.name == text

/-- The instruction set of a platform. -/
def arch : Platform → Arch
  | windows | linux | macos => .x86_64
  | macosArm64 => .arm64

end Platform

/-- At most one value for each platform. -/
structure PerPlatform (α : Type) where
  windows : Option α := none
  linux : Option α := none
  macos : Option α := none
  macosArm64 : Option α := none
  deriving DecidableEq

namespace PerPlatform

variable {α : Type}

/-- The value of one platform. -/
def get? (t : PerPlatform α) : Platform → Option α
  | .windows => t.windows
  | .linux => t.linux
  | .macos => t.macos
  | .macosArm64 => t.macosArm64

/-- The table with the value of one platform replaced. -/
def insert (t : PerPlatform α) (p : Platform) (a : α) : PerPlatform α :=
  match p with
  | .windows => { t with windows := some a }
  | .linux => { t with linux := some a }
  | .macos => { t with macos := some a }
  | .macosArm64 => { t with macosArm64 := some a }

/-- The entries, in the order of platforms. -/
def toList (t : PerPlatform α) : List (Platform × α) :=
  Platform.all.filterMap fun p => (t.get? p).map (p, ·)

/-- Whether the platform has a value. -/
def has (t : PerPlatform α) (p : Platform) : Bool := (t.get? p).isSome

end PerPlatform
end BinaryPatch
