/-
# Texts that read back

A byte string and a pattern can be written in many ways. White space does not count in a byte
string, so texts that differ in nothing else read as the same bytes. What the writers write is one
of the ways, whatever a text looked like before:

| | read | written |
| --- | --- | --- |
| byte string | digits in pairs, blanks anywhere | two digits each, a space between two |
| pattern | words of `?` or digits | `??` or two digits each, a space between two |

Every byte string reads back from its text, and so does every pattern with a literal, as is every
one that has been read (`ReadBack.parse_written`). A pattern of wildcards alone is written, too, but
not read.
-/

import BinaryPatch.Proofs.Grammar
import BinaryPatch.Proofs.Hex

namespace BinaryPatch

open Text

/-! ## White space in byte strings -/

/-- One text becomes the other when white space is put in and taken out. -/
inductive Text.Respaced : List Char → List Char → Prop where
  | nil : Respaced [] []
  | keep (c : Char) {s t : List Char} (h : Respaced s t) : Respaced (c :: s) (c :: t)
  | takeOut {c : Char} {s t : List Char} (hc : isBlank c = true) (h : Respaced s t) :
      Respaced (c :: s) t
  | putIn {c : Char} {s t : List Char} (hc : isBlank c = true) (h : Respaced s t) :
      Respaced s (c :: t)

/-- Without their white space, such texts are the same. -/
theorem Text.Respaced.dense_eq {s t : List Char} (h : Respaced s t) : dense s = dense t := by
  have hblank : ∀ {c : Char} (s : List Char), isBlank c = true → dense (c :: s) = dense s :=
    fun s hc => List.filter_cons_of_neg (by simp [hc])
  induction h with
  | nil => rfl
  | keep c _ ih =>
    unfold dense at ih ⊢
    rw [List.filter_cons, List.filter_cons, ih]
  | takeOut hc _ ih => rw [hblank _ hc, ih]
  | putIn hc _ ih => rw [hblank _ hc, ih]

theorem Hex.spells_respaced {numeral : List Char → Nat → Prop} {s t : String}
    (h : Respaced s.toList t.toList) {bytes : List UInt8} :
    Spells numeral s bytes ↔ Spells numeral t bytes := by
  unfold Spells
  rw [h.dense_eq]

/-! ## Patterns -/

namespace Pattern

/-- The text of a cell is a word. -/
theorem cellChars_word (c : Cell) : cellChars c ≠ [] ∧ ∀ x ∈ cellChars c, isBlank x = false := by
  cases c with
  | none =>
    refine ⟨nofun, fun x hx => ?_⟩
    rw [List.eq_of_mem_replicate (show x ∈ List.replicate 2 '?' from hx)]
    rfl
  | some b => exact ⟨nofun, fun x hx => (Hex.plain_of_mem_byteDigits hx).1⟩

/-- The words of a written pattern are the texts of its cells. -/
theorem tokens_formatChars (p : Pattern) : tokens (formatChars p) = p.map cellChars := by
  fun_induction formatChars p with
  | case1 => rfl
  | case2 c => exact tokens_singleton (cellChars_word c).1 (cellChars_word c).2
  | case3 c rest _ ih =>
    rw [tokens_append (cellChars_word c).1 (cellChars_word c).2 (by decide), ih, List.map_cons]

/-- The text of a cell reads as that cell. -/
theorem spells_cellChars (c : Cell) : c.Spells SignedNumeral (cellChars c) := by
  cases c with
  | none => exact .inr rfl
  | some b =>
    refine readByte_eq_ok_iff.1 ?_
    rw [cellChars, Hex.readHex_byteDigits]
    exact congrArg Except.ok UInt8.ofNat_toNat

/-- **A written pattern reads as itself** when it has a literal, and not at all otherwise. -/
theorem parse_format_iff (p : Pattern) : parse (format p) = .ok p ↔ ∃ c ∈ p, c ≠ none := by
  have hcells : List.Forall₂ (Cell.Spells SignedNumeral) (tokens (format p).toList) p := by
    rw [format, String.toList_ofList, tokens_formatChars, List.forall₂_map_left_iff,
      List.forall₂_same]
    exact fun c _ => spells_cellChars c
  rw [parse_eq_ok_iff]
  exact and_iff_right hcells

end Pattern

/-! ## Both -/

namespace ReadBack

/-- **What is written reads back.** A byte string reads as itself from its text, and white space
does not change what a text reads as. A pattern reads as itself from its text exactly when it has a
literal, so every pattern that has been read does. -/
theorem parse_written :
    (∀ bytes, Hex.parse (Hex.format bytes) = .ok bytes) ∧
    (∀ s t, Respaced s.toList t.toList →
      ∀ bytes, Hex.parse s = .ok bytes ↔ Hex.parse t = .ok bytes) ∧
    (∀ p, Pattern.parse (Pattern.format p) = .ok p ↔ ∃ c ∈ p, c ≠ none) ∧
    ∀ text p, Pattern.parse text = .ok p → Pattern.parse (Pattern.format p) = .ok p := by
  refine ⟨Hex.parse_format, fun s t h bytes => ?_, Pattern.parse_format_iff, fun text p h => ?_⟩
  · rw [Hex.parse_eq_ok_iff, Hex.parse_eq_ok_iff, Hex.spells_respaced h]
  · exact (Pattern.parse_format_iff p).2 (Pattern.parse_eq_ok_iff.1 h).2

/-- A byte string with its blanks elsewhere, and a pattern that was not written by the writer. -/
theorem parse_written_loose :
    Hex.parse "0 0D\tC" = .ok [0x00, 0xDC] ∧
      Pattern.parse " 4 ?\n00d" = .ok [some 0x04, none, some 0x0D] ∧
        Pattern.parse "04 ?? 0D" = .ok [some 0x04, none, some 0x0D] := by
  have hspaced : Respaced "0 0D\tC".toList "00 DC".toList :=
    .keep _ (.takeOut (by decide) (.keep _ (.putIn (by decide) (.keep _ (.takeOut (by decide)
      (.keep _ .nil))))))
  have hread : Pattern.parse " 4 ?\n00d" = .ok [some 0x04, none, some 0x0D] := by
    decide +kernel
  obtain ⟨hbytes, hblank, -, hpattern⟩ := parse_written
  exact ⟨(hblank _ _ hspaced _).2 (hbytes [0x00, 0xDC]), hread, hpattern _ _ hread⟩

end ReadBack
end BinaryPatch
