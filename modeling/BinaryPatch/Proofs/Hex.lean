/-
# Byte strings read back from their text

Every byte is written as two digits, which read as its value, and blanks do not count when a byte
string is read. So the text of a byte string reads as that byte string (`Hex.parse_format`).
-/

import BinaryPatch.Hex

namespace BinaryPatch

/-! ## Digits -/

/-- A digit is ASCII, and not blank. -/
theorem Text.upperDigit_plain {n : Nat} (h : n < 16) :
    isBlank (upperDigit n) = false ∧ (upperDigit n).toNat < 128 := by
  revert n
  decide

namespace Hex

theorem plain_of_mem_byteDigits {b : UInt8} {c : Char} (h : c ∈ byteDigits b) :
    Text.isBlank c = false ∧ c.toNat < 128 := by
  have hb : b.toNat < 256 := b.toNat_lt
  rcases List.mem_cons.1 h with rfl | h
  · exact Text.upperDigit_plain (by omega)
  · rw [List.mem_singleton.1 h]
    exact Text.upperDigit_plain (by omega)

@[simp]
theorem length_byteDigits (b : UInt8) : (byteDigits b).length = 2 := rfl

/-- The digits of a byte are a numeral of its value. -/
@[simp]
theorem readHex_byteDigits (b : UInt8) : Text.readHex 8 (byteDigits b) = .ok b.toNat := by
  have hall : ∀ n < 256,
      (Text.readHex 8 [Text.upperDigit (n / 16), Text.upperDigit (n % 16)]).toOption = some n := by
    decide +kernel
  have hb := hall b.toNat b.toNat_lt
  unfold byteDigits
  cases h : Text.readHex 8 [Text.upperDigit (b.toNat / 16), Text.upperDigit (b.toNat % 16)] with
  | error cause =>
    rw [h] at hb
    cases hb
  | ok value =>
    rw [h] at hb
    exact congrArg Except.ok (Option.some.inj hb)

/-! ## Texts -/

@[simp]
theorem readPairs_flatMap (bytes : List UInt8) :
    readPairs (bytes.flatMap byteDigits) = .ok bytes := by
  induction bytes with
  | nil => rfl
  | cons b rest ih =>
    have hpair : Text.readHex 8 [Text.upperDigit (b.toNat / 16), Text.upperDigit (b.toNat % 16)] =
        .ok b.toNat := readHex_byteDigits b
    rw [List.flatMap_cons, byteDigits, List.cons_append, List.cons_append, List.nil_append,
      readPairs, hpair]
    dsimp only
    rw [ih, UInt8.ofNat_toNat]
    rfl

@[simp]
theorem dense_byteDigits (b : UInt8) : Text.dense (byteDigits b) = byteDigits b := by
  refine List.filter_eq_self.2 fun c hc => ?_
  rw [(plain_of_mem_byteDigits hc).1]
  rfl

/-- Without its blanks, a written byte string is its digits. -/
@[simp]
theorem dense_formatChars (bytes : List UInt8) :
    Text.dense (formatChars bytes) = bytes.flatMap byteDigits := by
  fun_induction formatChars bytes with
  | case1 => rfl
  | case2 b => simp
  | case3 b rest _ ih =>
    have hsplit : Text.dense (byteDigits b ++ ' ' :: formatChars rest) =
        Text.dense (byteDigits b) ++ Text.dense (formatChars rest) := List.filter_append ..
    simp [hsplit, ih]

theorem length_flatMap_byteDigits (bytes : List UInt8) :
    (bytes.flatMap byteDigits).length = 2 * bytes.length := by
  induction bytes with
  | nil => rfl
  | cons b rest ih =>
    rw [List.flatMap_cons, List.length_append, ih, length_byteDigits, List.length_cons]
    omega

/-- **A written byte string reads as itself.** -/
@[simp]
theorem parse_format (bytes : List UInt8) : parse (format bytes) = .ok bytes := by
  have hascii : ((bytes.flatMap byteDigits).any fun c => 128 ≤ c.toNat) = false := by
    rw [List.any_eq_false]
    intro c hc
    obtain ⟨b, -, hcb⟩ := List.mem_flatMap.1 hc
    simpa using (plain_of_mem_byteDigits hcb).2
  have hpairs : ¬ (bytes.flatMap byteDigits).length % 2 = 1 := by
    rw [length_flatMap_byteDigits]
    omega
  unfold parse format
  rw [String.toList_ofList, dense_formatChars]
  dsimp only
  rw [hascii, if_neg (by decide), if_neg hpairs, readPairs_flatMap]

end Hex
end BinaryPatch
