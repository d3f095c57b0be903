/-
# White space

White space here is the Unicode property of that name: 25 characters, among them the
no-break space and the ideographic space, but neither the zero-width space nor the byte
order mark. Words, trimming and the removal of all blanks are defined from it.
-/

namespace BinaryPatch
namespace Text

/-- The characters with the Unicode property `White_Space`. -/
def isBlank (c : Char) : Bool :=
  let n := c.toNat
  (0x09 ≤ n && n ≤ 0x0D) || n == 0x20 || n == 0x85 || n == 0xA0 || n == 0x1680 ||
    (0x2000 ≤ n && n ≤ 0x200A) || n == 0x2028 || n == 0x2029 || n == 0x202F ||
    n == 0x205F || n == 0x3000

/-- A text without its white space. -/
def dense (s : List Char) : List Char := s.filter fun c => !isBlank c

/-- The longest stretches of a text that are free of white space, in order. -/
def words : List Char → List (List Char)
  | [] => []
  | c :: rest =>
    if isBlank c then words rest
    else
      match rest with
      | [] => [[c]]
      | d :: _ =>
        if isBlank d then [c] :: words rest
        else
          match words rest with
          | [] => [[c]]
          | w :: ws => (c :: w) :: ws

/-- A text without the white space at its start. -/
def trimStart (s : List Char) : List Char := s.dropWhile isBlank

/-- A text without the white space at either end. -/
def trim (s : List Char) : List Char := (trimStart (trimStart s).reverse).reverse

end Text
end BinaryPatch
