/-
# Files

What the commands see of a file system: the files with their contents, and for each path
whether reading or writing it fails. A failed write leaves everything as it was.
-/

import BinaryPatch.Image.Basic

namespace BinaryPatch

/-- Files, and the paths that cannot be read or written. -/
structure FileSystem where
  /-- The contents of each file. -/
  files : List (String × ByteArray)
  /-- The file that a path leads to. -/
  locate : String → String := id
  readFault : String → Option StorageFault := fun _ => none
  writeFault : String → Option StorageFault := fun _ => none

namespace FileSystem

/-- The contents of the file that a path leads to. -/
def contents (fs : FileSystem) (path : String) : Option ByteArray :=
  List.lookup (fs.locate path) fs.files

/-- Read a file. -/
def read (fs : FileSystem) (path : String) : Except StorageFault ByteArray :=
  match fs.readFault path with
  | some fault => .error fault
  | none =>
    match fs.contents path with
    | some bytes => .ok bytes
    | none => .error .notFound

/-- Read a file as text. -/
def readText (fs : FileSystem) (path : String) : Except StorageFault String :=
  match fs.read path with
  | .error fault => .error fault
  | .ok bytes =>
    match String.fromUTF8? bytes with
    | some text => .ok text
    | none => .error .notText

/-- The file system with the contents of a file replaced. -/
def put (fs : FileSystem) (path : String) (bytes : ByteArray) : FileSystem :=
  let name := fs.locate path
  { fs with files := (name, bytes) :: fs.files.filter fun file => file.1 != name }

/-- Write a file. -/
def write (fs : FileSystem) (path : String) (bytes : ByteArray) :
    Except StorageFault FileSystem :=
  match fs.writeFault path with
  | some fault => .error fault
  | none => .ok (fs.put path bytes)

/-- The store of the file at a path: it holds the file's bytes, and persisting it fails when
the path cannot be written. -/
def store (fs : FileSystem) (path : String) (bytes : ByteArray) : Store :=
  { bytes, fault := fs.writeFault path }

/-- The file system after a store was used: if it was persisted, the file holds what the
store holds. -/
def adopt (fs : FileSystem) (path : String) (store : Store) : FileSystem :=
  if store.persists = 0 then fs else fs.put path store.bytes

/-- The file system in which reading a path fails. -/
def failReading (fs : FileSystem) (path : String) (fault : StorageFault) : FileSystem :=
  { fs with readFault := fun p => if p = path then some fault else fs.readFault p }

/-- The file system in which writing a path fails. -/
def failWriting (fs : FileSystem) (path : String) (fault : StorageFault) : FileSystem :=
  { fs with writeFault := fun p => if p = path then some fault else fs.writeFault p }

end FileSystem
end BinaryPatch
