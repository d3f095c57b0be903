/-
# Addresses read back from their text

The digits of a number are a numeral of it, in as many bits as it takes. They hold no sign and no
mark, so the reader drops the `0x` in front of an address and nothing else (`Address.parse_format`).
-/

import BinaryPatch.Address
import Mathlib.Algebra.Ring.Int.Defs
import Mathlib.Tactic.IntervalCases

namespace BinaryPatch

/-! ## Digits -/

namespace Text

/-- What is no digit does not stand among them. -/
theorem not_mem_hexDigits {digit : Nat → Char} {c : Char} (h : ∀ k < 16, digit k ≠ c) (n : Nat) :
    c ∉ hexDigits digit n := by
  fun_induction hexDigits digit n with
  | case1 n hn => exact fun hmem => h n hn (List.mem_singleton.1 hmem).symm
  | case2 n hn ih =>
    rw [List.mem_append, List.mem_singleton, not_or]
    exact ⟨ih, fun heq => h (n % 16) (Nat.mod_lt _ (by decide)) heq.symm⟩

theorem hexDigits_ne_nil (digit : Nat → Char) (n : Nat) : hexDigits digit n ≠ [] := by
  unfold hexDigits
  split <;> simp

/-- A digit is read if the value with it fits. -/
theorem readHexDigits_upperDigit {bits v d : Nat} (hd : d < 16) (h : v * 16 + d < 2 ^ bits)
    (rest : List Char) :
    readHexDigits bits v (upperDigit d :: rest) = readHexDigits bits (v * 16 + d) rest := by
  -- for a digit that is given, the reader comes to its comparison by computation
  interval_cases d <;> exact if_pos h

/-- What follows the digits of a number is read after its value. -/
theorem readHexDigits_hexDigits {bits n : Nat} (h : n < 2 ^ bits) (rest : List Char) :
    readHexDigits bits 0 (hexDigits upperDigit n ++ rest) = readHexDigits bits n rest := by
  fun_induction hexDigits upperDigit n generalizing rest with
  | case1 n hn =>
    rw [List.singleton_append, readHexDigits_upperDigit hn (by omega), Nat.zero_mul, Nat.zero_add]
  | case2 n hn ih =>
    rw [List.append_assoc, ih (by omega), List.singleton_append,
      readHexDigits_upperDigit (by omega) (by omega), Nat.div_add_mod']

/-- **The digits of a number are a numeral of it.** -/
theorem readHex_hexDigits {bits n : Nat} (h : n < 2 ^ bits) :
    readHex bits (hexDigits upperDigit n) = .ok n := by
  have hplus : '+' ∉ hexDigits upperDigit n := not_mem_hexDigits (by decide) n
  unfold readHex
  split
  · exact absurd ‹_› (hexDigits_ne_nil _ _)
  · rename_i hsign
    exact absurd (hsign ▸ List.mem_cons_self) hplus
  · rename_i hsign
    exact absurd (hsign ▸ List.mem_cons_self) hplus
  · have hread := readHexDigits_hexDigits h []
    rwa [List.append_nil] at hread

end Text

/-! ## Addresses -/

namespace Address

theorem dropMarks_of_not_mem {letter : Char} {s : List Char} (h : letter ∉ s) :
    dropMarks letter s = s := by
  unfold dropMarks
  split
  · rw [if_neg]
    rintro rfl
    exact h (List.mem_cons_of_mem _ List.mem_cons_self)
  · rfl

/-- **A written address reads as itself.** -/
@[simp]
theorem parse_format (a : UInt64) : parse (format a) = .ok a := by
  have hx : 'x' ∉ Text.hexDigits Text.upperDigit a.toNat := Text.not_mem_hexDigits (by decide) _
  have hX : 'X' ∉ Text.hexDigits Text.upperDigit a.toNat := Text.not_mem_hexDigits (by decide) _
  have htext : (format a).toList = '0' :: 'x' :: Text.hexDigits Text.upperDigit a.toNat := by
    simp [format, Text.upperHex, String.toList_append]
  unfold parse
  rw [htext, dropMarks, if_pos rfl, dropMarks_of_not_mem hx, dropMarks_of_not_mem hX,
    Text.readHex_hexDigits a.toNat_lt]
  exact congrArg Except.ok UInt64.ofNat_toNat

end Address
end BinaryPatch
