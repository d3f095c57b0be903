/-
# Byte buffers

A loaded file is one `ByteArray`; the short strings of bytes that are looked for in it or
written over it are lists. Three operations join the two:

| operation | meaning |
| --- | --- |
| `window b o n` | the bytes at `o ≤ i < o + n`, as far as they exist |
| `holdsAt b o w` | the bytes of `w` stand at `o`, all of them inside the buffer |
| `overwrite b o w` | the buffer with `w` written over it at `o` |
-/

namespace BinaryPatch
namespace Bytes

/-- The bytes of a buffer from `offset` on, at most `length` of them. -/
def window (b : ByteArray) (offset length : Nat) : List UInt8 :=
  (b.extract offset (offset + length)).data.toList

/-- Whether the wanted bytes stand at `offset`. No bytes stand at every offset up to the
size of the buffer. -/
def holdsAt (b : ByteArray) (offset : Nat) : List UInt8 → Bool
  | [] => offset ≤ b.size
  | w :: rest =>
    if h : offset < b.size then b[offset] == w && holdsAt b (offset + 1) rest else false

/-- Write bytes over a buffer. Its size stays the same when they fit. -/
def overwrite (b : ByteArray) (offset : Nat) (bytes : List UInt8) : ByteArray :=
  (ByteArray.mk bytes.toArray).copySlice 0 b offset bytes.length

end Bytes
end BinaryPatch
