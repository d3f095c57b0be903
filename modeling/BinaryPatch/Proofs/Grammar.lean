/-
# The texts that are read

Byte strings, patterns and addresses are read through one reader of numerals, and each of the three
accepts what this reader takes for a numeral:

| text | is made of | plain form |
| --- | --- | --- |
| byte string | numerals of two characters, blanks anywhere | two digits |
| pattern | `?`, `??` and numerals below 256, blanks between | one or two digits |
| address | marks `0x`, then `0X`, then a numeral below `2 ^ 64` | at most one mark, digits |

A numeral is one or more digits, but a `+` may stand in front of them, and zeros may lead as often
as they like. So `+F` is read as a byte, `00F` as a cell and `0x0x10` as an address. Each reader
accepts every text in the plain form, with its value, and of the others exactly those with a sign, a
longer word or a repeated mark (`Grammar.accepted_iff`).
-/

import BinaryPatch.Json.Decode
import BinaryPatch.Proofs.Outcome
import Mathlib.Data.Nat.Digits.Defs
import Mathlib.Tactic.Ring

namespace BinaryPatch

/-! ## Words -/

namespace Text

/-- The words of a text: what white space divides it into, empty parts left out. -/
def tokens (s : List Char) : List (List Char) := (s.splitOnP isBlank).filter (· ≠ [])

theorem tokens_cons_of_blank {c : Char} (h : isBlank c = true) (s : List Char) :
    tokens (c :: s) = tokens s := by
  simp [tokens, List.splitOnP_cons_eq_if_modifyHead, h]

/-- A word and what comes behind it. -/
theorem tokens_append {w : List Char} (hne : w ≠ []) (hw : ∀ c ∈ w, isBlank c = false) {c : Char}
    (hc : isBlank c = true) (s : List Char) : tokens (w ++ c :: s) = w :: tokens s := by
  simp [tokens, List.splitOnP_append_cons_of_forall_mem hw c hc, hne]

theorem tokens_singleton {w : List Char} (hne : w ≠ []) (hw : ∀ c ∈ w, isBlank c = false) :
    tokens w = [w] := by
  simp [tokens, List.splitOnP_eq_singleton hw, hne]

/-- A character that is not blank joins the word behind it. -/
theorem tokens_cons_cons {c d : Char} (hc : isBlank c = false) (hd : isBlank d = false)
    (s : List Char) :
    ∃ w ws, tokens (d :: s) = w :: ws ∧ tokens (c :: d :: s) = (c :: w) :: ws := by
  obtain ⟨h, t, hsplit⟩ := List.exists_cons_of_ne_nil (List.splitOnP_ne_nil isBlank s)
  refine ⟨d :: h, t.filter (· ≠ []), ?_, ?_⟩ <;>
    simp [tokens, List.splitOnP_cons_eq_if_modifyHead, hc, hd, hsplit]

/-- Words that are looked for from left to right are those that white space divides. -/
theorem words_eq_tokens (s : List Char) : words s = tokens s := by
  fun_induction words s with
  | case1 => rfl
  | case2 c rest hc ih => rw [ih, tokens_cons_of_blank hc]
  | case3 c hc => exact (tokens_singleton (by simp) (by simpa using hc)).symm
  | case4 c hc d rest hd ih =>
    rw [ih, tokens_cons_of_blank hd]
    exact (tokens_append (w := [c]) (by simp) (by simpa using hc) hd rest).symm
  | case5 c hc d rest hd hnil ih =>
    obtain ⟨w, ws, hrest, hall⟩ := tokens_cons_cons (by simpa using hc) (by simpa using hd) rest
    rw [ih, hrest] at hnil
    cases hnil
  | case6 c hc d rest hd v vs hcons ih =>
    obtain ⟨w, ws, hrest, hall⟩ := tokens_cons_cons (by simpa using hc) (by simpa using hd) rest
    rw [ih, hrest, hall]

/-! ## Numerals -/

/-- The characters are the digits of these values. -/
def Digits (s : List Char) (ds : List Nat) : Prop :=
  List.Forall₂ (fun c d => hexDigit? c = some d) s ds

/-- A numeral of a number: one or more digits, the most significant first. -/
def Numeral (s : List Char) (n : Nat) : Prop :=
  s ≠ [] ∧ ∃ ds, Digits s ds ∧ Nat.ofDigits 16 ds.reverse = n

/-- A numeral that may have a `+` in front. -/
def SignedNumeral (s : List Char) (n : Nat) : Prop :=
  Numeral s n ∨ ∃ t, s = '+' :: t ∧ Numeral t n

/-- A digit that is read makes a number of the value before it. -/
theorem ofDigits_reverse_cons (d v : Nat) (ds : List Nat) :
    Nat.ofDigits 16 ((d :: ds).reverse ++ [v]) = Nat.ofDigits 16 (ds.reverse ++ [v * 16 + d]) := by
  simp only [List.reverse_cons, Nat.ofDigits_append, Nat.ofDigits_singleton, List.append_assoc,
    List.length_singleton]
  ring

/-- More digits do not make a number smaller. -/
theorem le_ofDigits_reverse (v : Nat) (ds : List Nat) :
    v ≤ Nat.ofDigits 16 (ds.reverse ++ [v]) := by
  rw [Nat.ofDigits_append, Nat.ofDigits_singleton]
  exact Nat.le_add_left_of_le (Nat.le_mul_of_pos_left v (Nat.pow_pos (by decide)))

theorem readHexDigits_cons (bits v : Nat) (c : Char) (rest : List Char) :
    readHexDigits bits v (c :: rest) =
      match hexDigit? c with
      | none => .error .invalidDigit
      | some d =>
        if v * 16 + d < 2 ^ bits then readHexDigits bits (v * 16 + d) rest
        else .error .tooLarge := rfl

/-- Digits are read as those of the number of which the first ones have been read already. -/
theorem readHexDigits_eq_ok_iff {bits v n : Nat} {s : List Char} (hv : v < 2 ^ bits) :
    readHexDigits bits v s = .ok n ↔
      n < 2 ^ bits ∧ ∃ ds, Digits s ds ∧ Nat.ofDigits 16 (ds.reverse ++ [v]) = n := by
  unfold Digits
  induction s generalizing v with
  | nil =>
    have hread : readHexDigits bits v [] = .ok v := rfl
    simp only [hread, Except.ok.injEq, List.forall₂_nil_left_iff, exists_eq_left,
      List.reverse_nil, List.nil_append, Nat.ofDigits_singleton]
    exact ⟨fun h => ⟨h ▸ hv, h⟩, And.right⟩
  | cons c rest ih =>
    rw [readHexDigits_cons]
    cases hc : hexDigit? c with
    | none => simp [List.forall₂_cons_left_iff, hc]
    | some d =>
      have hdigits : (∃ ds, List.Forall₂ (fun c d => hexDigit? c = some d) (c :: rest) ds ∧
          Nat.ofDigits 16 (ds.reverse ++ [v]) = n) ↔
          ∃ ds, List.Forall₂ (fun c d => hexDigit? c = some d) rest ds ∧
            Nat.ofDigits 16 (ds.reverse ++ [v * 16 + d]) = n := by
        simp [List.forall₂_cons_left_iff, hc, ← ofDigits_reverse_cons]
      rw [hdigits]
      dsimp only
      split
      · exact ih ‹_›
      · -- Past the bound the reader stops; the digits behind could not bring the number back below.
        refine iff_of_false nofun ?_
        rintro ⟨hn, ds, -, rfl⟩
        have hle := le_ofDigits_reverse (v * 16 + d) ds
        omega

theorem readHexDigits_zero_iff {bits n : Nat} {s : List Char} (hne : s ≠ []) :
    readHexDigits bits 0 s = .ok n ↔ Numeral s n ∧ n < 2 ^ bits := by
  rw [readHexDigits_eq_ok_iff (Nat.two_pow_pos bits)]
  simp [Numeral, hne, Nat.ofDigits_append, and_comm]

/-- A numeral has digits only. -/
theorem Numeral.exists_digit {s : List Char} {n : Nat} (h : Numeral s n) {c : Char} (hc : c ∈ s) :
    ∃ d, hexDigit? c = some d := by
  obtain ⟨-, ds, hds, -⟩ := h
  induction hds with
  | nil => cases hc
  | cons hd _ ih =>
    rcases List.mem_cons.1 hc with rfl | hc
    · exact ⟨_, hd⟩
    · exact ih hc

theorem Numeral.not_mem {s : List Char} {n : Nat} (h : Numeral s n) {c : Char}
    (hc : hexDigit? c = none) : c ∉ s := by
  intro hmem
  obtain ⟨d, hd⟩ := h.exists_digit hmem
  rw [hc] at hd
  cases hd

/-- A sign is no digit. -/
theorem not_numeral_plus {s : List Char} {n : Nat} : ¬ Numeral ('+' :: s) n :=
  fun h => h.not_mem rfl List.mem_cons_self

/-- **What is read as a numeral.** -/
theorem readHex_eq_ok_iff {bits n : Nat} {s : List Char} :
    readHex bits s = .ok n ↔ SignedNumeral s n ∧ n < 2 ^ bits := by
  have hnil : ¬ Numeral [] n := fun h => h.1 rfl
  unfold readHex
  split
  case h_1 => exact iff_of_false nofun fun h => h.1.elim hnil fun ⟨t, ht, _⟩ => nomatch ht
  case h_2 =>
    refine iff_of_false nofun fun h => h.1.elim not_numeral_plus ?_
    rintro ⟨t, ht, hnumeral⟩
    cases ht
    exact hnil hnumeral
  case h_3 digits hne =>
    -- Only one sign is taken: what follows it has to be a numeral, which has none.
    have hsigned : SignedNumeral ('+' :: digits) n ↔ Numeral digits n := by
      simp [SignedNumeral, not_numeral_plus]
    rw [hsigned]
    exact readHexDigits_zero_iff fun hdigits => hne (by rw [hdigits])
  case h_4 hne _ hplus =>
    have hsigned : SignedNumeral s n ↔ Numeral s n := by
      refine or_iff_left ?_
      rintro ⟨t, rfl, -⟩
      exact hplus t rfl
    rw [hsigned]
    exact readHexDigits_zero_iff hne

/-- The plain numerals are those without a sign. -/
theorem numeral_iff {s : List Char} {n : Nat} : Numeral s n ↔ SignedNumeral s n ∧ '+' ∉ s := by
  constructor
  · intro h
    exact ⟨.inl h, h.not_mem rfl⟩
  · rintro ⟨h | ⟨t, rfl, -⟩, hplus⟩
    · exact h
    · exact absurd List.mem_cons_self hplus

/-- Digits are ASCII. -/
theorem lt_of_hexDigit? {c : Char} {d : Nat} (h : hexDigit? c = some d) : c.toNat < 128 := by
  unfold hexDigit? at h
  split_ifs at h with hdecimal hlower hupper
  · exact Nat.lt_of_le_of_lt hdecimal.2 (by decide)
  · exact Nat.lt_of_le_of_lt hlower.2 (by decide)
  · exact Nat.lt_of_le_of_lt hupper.2 (by decide)

theorem SignedNumeral.ascii {s : List Char} {n : Nat} (h : SignedNumeral s n) {c : Char}
    (hc : c ∈ s) : c.toNat < 128 := by
  have hplain : ∀ {t : List Char}, Numeral t n → c ∈ t → c.toNat < 128 := fun ht hmem =>
    lt_of_hexDigit? (ht.exists_digit hmem).choose_spec
  obtain h | ⟨t, rfl, ht⟩ := h
  · exact hplain h hc
  · rcases List.mem_cons.1 hc with rfl | hc
    · decide
    · exact hplain ht hc

/-- **What is read as a number of a type,** when that holds the numbers of so many bits. -/
theorem map_readHex_eq_ok_iff {α : Type} {bits : Nat} {toNat : α → Nat} {ofNat : Nat → α}
    (hlt : ∀ a, toNat a < 2 ^ bits) (hof : ∀ n < 2 ^ bits, toNat (ofNat n) = n)
    (hto : ∀ a, ofNat (toNat a) = a) {s : List Char} {a : α} :
    (readHex bits s).map ofNat = .ok a ↔ SignedNumeral s (toNat a) := by
  constructor
  · intro h
    obtain ⟨n, hread, rfl⟩ := exists_of_map_eq_ok h
    obtain ⟨hnumeral, hn⟩ := readHex_eq_ok_iff.1 hread
    rwa [hof n hn]
  · intro h
    rw [readHex_eq_ok_iff.2 ⟨h, hlt a⟩]
    exact congrArg Except.ok (hto a)

theorem readByte_eq_ok_iff {s : List Char} {b : UInt8} :
    (readHex 8 s).map UInt8.ofNat = .ok b ↔ SignedNumeral s b.toNat :=
  map_readHex_eq_ok_iff UInt8.toNat_lt (fun _ => UInt8.toNat_ofNat_of_lt')
    fun _ => UInt8.ofNat_toNat

theorem readWord_eq_ok_iff {s : List Char} {a : UInt64} :
    (readHex 64 s).map UInt64.ofNat = .ok a ↔ SignedNumeral s a.toNat :=
  map_readHex_eq_ok_iff UInt64.toNat_lt (fun _ => UInt64.toNat_ofNat_of_lt')
    fun _ => UInt64.ofNat_toNat

end Text

/-! ## Byte strings -/

namespace Hex

open Text

/-- Each two characters are a numeral, in this sense, of a byte. -/
inductive Pairs (numeral : List Char → Nat → Prop) : List Char → List UInt8 → Prop where
  | nil : Pairs numeral [] []
  | cons {a c : Char} {rest : List Char} {b : UInt8} {bytes : List UInt8}
      (pair : numeral [a, c] b.toNat) (more : Pairs numeral rest bytes) :
      Pairs numeral (a :: c :: rest) (b :: bytes)

/-- A text is that of a byte string, its white space left out. -/
def Spells (numeral : List Char → Nat → Prop) (text : String) (bytes : List UInt8) : Prop :=
  Pairs numeral (dense text.toList) bytes

theorem readPairs_eq_ok_iff {digits : List Char} {bytes : List UInt8}
    (heven : digits.length % 2 = 0) :
    readPairs digits = .ok bytes ↔ Pairs SignedNumeral digits bytes := by
  fun_induction readPairs digits generalizing bytes with
  | case1 a c rest cause herror =>
    refine iff_of_false nofun fun h => ?_
    cases h with
    | cons pair more =>
      have hread := readByte_eq_ok_iff.2 pair
      rw [herror] at hread
      cases hread
  | case2 a c rest value hvalue ih =>
    have hbyte : ∀ b : UInt8, UInt8.ofNat value = b ↔ SignedNumeral [a, c] b.toNat := by
      intro b
      rw [← readByte_eq_ok_iff, hvalue]
      exact Except.ok.injEq .. ▸ Iff.rfl
    have hrest : rest.length % 2 = 0 := by
      simp only [List.length_cons] at heven
      omega
    constructor
    · intro h
      obtain ⟨more, hread, rfl⟩ := exists_of_map_eq_ok h
      exact .cons ((hbyte _).1 rfl) ((ih hrest).1 hread)
    · rintro (_ | ⟨pair, more⟩)
      rw [(ih hrest).2 more]
      exact congrArg (fun b => Except.ok (b :: _)) ((hbyte _).2 pair)
  | case3 digits hshort =>
    have hnil : digits = [] := by
      match digits, heven, hshort with
      | [], _, _ => rfl
      | [_], heven, _ => cases heven
      | a :: c :: rest, _, hshort => exact absurd rfl (hshort a c rest)
    subst hnil
    constructor
    · rintro ⟨⟩
      exact .nil
    · rintro ⟨⟩
      rfl

theorem Pairs.even {numeral : List Char → Nat → Prop} {digits : List Char} {bytes : List UInt8}
    (h : Pairs numeral digits bytes) : digits.length % 2 = 0 := by
  induction h with
  | nil => rfl
  | cons _ _ ih =>
    simp only [List.length_cons]
    omega

theorem Pairs.ascii {digits : List Char} {bytes : List UInt8}
    (h : Pairs SignedNumeral digits bytes) : ∀ c ∈ digits, c.toNat < 128 := by
  induction h with
  | nil => exact fun c hc => nomatch hc
  | @cons a c rest _ _ pair _ ih =>
    intro x hx
    obtain hx | hx := List.mem_append.1 (show x ∈ [a, c] ++ rest from hx)
    · exact pair.ascii hx
    · exact ih x hx

/-- **What is read as a byte string.** -/
theorem parse_eq_ok_iff {text : String} {bytes : List UInt8} :
    parse text = .ok bytes ↔ Spells SignedNumeral text bytes := by
  unfold parse Spells
  dsimp only
  by_cases hascii : ∀ c ∈ dense text.toList, c.toNat < 128
  · by_cases heven : (dense text.toList).length % 2 = 0
    · rw [if_neg (by simpa using hascii), if_neg (by omega), readPairs_eq_ok_iff heven]
    · rw [if_neg (by simpa using hascii), if_pos (by omega)]
      exact iff_of_false nofun fun h => heven h.even
  · rw [if_pos (by simpa using hascii)]
    exact iff_of_false nofun fun h => hascii h.ascii

/-- Pairs of digits are the pairs without a sign. -/
theorem pairs_numeral_iff {digits : List Char} {bytes : List UInt8} :
    Pairs Numeral digits bytes ↔ Pairs SignedNumeral digits bytes ∧ '+' ∉ digits := by
  have hsplit : ∀ (a c : Char) (rest : List Char),
      '+' ∉ a :: c :: rest ↔ '+' ∉ [a, c] ∧ '+' ∉ rest := by
    intro a c rest
    rw [← not_or, ← List.mem_append]
    rfl
  constructor
  · intro h
    induction h with
    | nil => exact ⟨.nil, nofun⟩
    | cons pair _ ih =>
      obtain ⟨hsigned, hplus⟩ := numeral_iff.1 pair
      exact ⟨.cons hsigned ih.1, (hsplit ..).2 ⟨hplus, ih.2⟩⟩
  · rintro ⟨h, hplus⟩
    induction h with
    | nil => exact .nil
    | cons pair _ ih =>
      obtain ⟨hpair, hrest⟩ := (hsplit ..).1 hplus
      exact .cons (numeral_iff.2 ⟨pair, hpair⟩) (ih hrest)

theorem spells_numeral_iff {text : String} {bytes : List UInt8} :
    Spells Numeral text bytes ↔ Spells SignedNumeral text bytes ∧ '+' ∉ text.toList := by
  have hblank : '+' ∈ dense text.toList ↔ '+' ∈ text.toList := by simp [dense, isBlank]
  rw [← hblank]
  exact pairs_numeral_iff

end Hex

/-! ## Patterns -/

open Text

/-- A word is that of a cell: `?` or `??` for a wildcard, a numeral in this sense for a literal. -/
def Cell.Spells (numeral : List Char → Nat → Prop) (word : List Char) : Cell → Prop
  | none => word = ['?'] ∨ word = ['?', '?']
  | some b => numeral word b.toNat

namespace Pattern

/-- The words of a text are those of the cells of a pattern that has a literal. -/
def Spells (numeral : List Char → Nat → Prop) (text : String) (p : Pattern) : Prop :=
  List.Forall₂ (Cell.Spells numeral) (tokens text.toList) p ∧ ∃ c ∈ p, c ≠ none

/-- Digits, at most two of them. -/
def ShortNumeral (word : List Char) (n : Nat) : Prop := Numeral word n ∧ word.length ≤ 2

theorem readCell_eq_ok_iff {word : List Char} {c : Cell} :
    readCell word = .ok c ↔ c.Spells SignedNumeral word := by
  unfold readCell
  by_cases hwild : word = ['?'] ∨ word = ['?', '?']
  · rw [if_pos hwild]
    cases c with
    | none => exact iff_of_true rfl hwild
    | some b =>
      refine iff_of_false nofun fun h => ?_
      have hnone := readByte_eq_ok_iff.2 h
      obtain rfl | rfl := hwild <;> cases hnone
  · rw [if_neg hwild]
    cases hread : readHex 8 word with
    | error cause =>
      refine iff_of_false nofun fun h => ?_
      cases c with
      | none => exact hwild h
      | some b =>
        have hok := readByte_eq_ok_iff.2 h
        rw [hread] at hok
        cases hok
    | ok value =>
      cases c with
      | none => exact iff_of_false nofun hwild
      | some b =>
        have hbyte := readByte_eq_ok_iff (s := word) (b := b)
        rw [hread] at hbyte
        refine Iff.trans ?_ hbyte
        simp [Except.map]

theorem readCells_eq_ok_iff {words : List (List Char)} {p : Pattern} :
    readCells words = .ok p ↔ List.Forall₂ (Cell.Spells SignedNumeral) words p := by
  induction words generalizing p with
  | nil => simp [readCells, eq_comm]
  | cons word rest ih =>
    rw [readCells, List.forall₂_cons_left_iff]
    cases hword : readCell word with
    | error fault =>
      refine iff_of_false nofun ?_
      rintro ⟨c, q, hc, -, -⟩
      rw [readCell_eq_ok_iff.2 hc] at hword
      cases hword
    | ok cell =>
      constructor
      · intro h
        obtain ⟨q, hrest, rfl⟩ := exists_of_map_eq_ok h
        exact ⟨cell, q, readCell_eq_ok_iff.1 hword, ih.1 hrest, rfl⟩
      · rintro ⟨c, q, hc, hq, rfl⟩
        obtain rfl := Except.ok.inj (hword.symm.trans (readCell_eq_ok_iff.2 hc))
        rw [ih.2 hq]
        rfl

/-- **What is read as a pattern.** -/
theorem parse_eq_ok_iff {text : String} {p : Pattern} :
    parse text = .ok p ↔ Spells SignedNumeral text p := by
  unfold parse Spells
  rw [words_eq_tokens]
  cases hcells : readCells (tokens text.toList) with
  | error fault =>
    refine iff_of_false nofun fun h => ?_
    rw [readCells_eq_ok_iff.2 h.1] at hcells
    cases hcells
  | ok q =>
    have hq : List.Forall₂ (Cell.Spells SignedNumeral) (tokens text.toList) p ↔ q = p := by
      rw [← readCells_eq_ok_iff, hcells, Except.ok.injEq]
    rw [hq]
    dsimp only
    split
    · rename_i hempty
      refine iff_of_false nofun ?_
      rintro ⟨rfl, c, hc, -⟩
      rw [List.isEmpty_iff.1 hempty] at hc
      cases hc
    · split
      · rename_i hnone
        refine iff_of_false nofun ?_
        rintro ⟨rfl, c, hc, hsome⟩
        exact hsome (Option.isNone_iff_eq_none.1 (List.all_eq_true.1 hnone c hc))
      · rename_i hsome
        rw [Except.ok.injEq]
        refine (and_iff_left_of_imp ?_).symm
        rintro rfl
        simpa using hsome

theorem cellSpells_short_iff {word : List Char} {c : Cell} :
    c.Spells ShortNumeral word ↔
      c.Spells SignedNumeral word ∧ '+' ∉ word ∧ word.length ≤ 2 := by
  cases c with
  | none =>
    refine (and_iff_left_of_imp ?_).symm
    rintro (rfl | rfl) <;> decide
  | some b => exact (and_congr_left' numeral_iff).trans and_assoc

theorem spells_short_iff {text : String} {p : Pattern} :
    Spells ShortNumeral text p ↔ Spells SignedNumeral text p ∧
      ∀ word ∈ tokens text.toList, '+' ∉ word ∧ word.length ≤ 2 := by
  unfold Spells
  generalize tokens text.toList = words
  have hcells : Cell.Spells ShortNumeral = fun word c =>
      ('+' ∉ word ∧ word.length ≤ 2) ∧ Cell.Spells SignedNumeral word c := by
    funext word c
    exact propext (cellSpells_short_iff.trans and_comm)
  rw [hcells, List.forall₂_and_left, and_assoc, and_comm]

end Pattern

/-! ## Addresses -/

namespace Address

/-- A mark, so many times. -/
def marks (letter : Char) (count : Nat) : List Char := (List.replicate count ['0', letter]).flatten

/-- A text is that of an address: marks `0x`, then marks `0X`, then a numeral. -/
def Spells (text : String) (a : UInt64) : Prop :=
  ∃ m n digits, text.toList = marks 'x' m ++ marks 'X' n ++ digits ∧ SignedNumeral digits a.toNat

/-- A text is that of an address in the plain form: at most one mark, then digits. -/
def Plain (text : String) (a : UInt64) : Prop :=
  ∃ mark ∈ [[], ['0', 'x'], ['0', 'X']], ∃ digits,
    text.toList = mark ++ digits ∧ Numeral digits a.toNat

@[simp]
theorem marks_succ (letter : Char) (count : Nat) :
    marks letter (count + 1) = '0' :: letter :: marks letter count := by
  simp [marks, List.replicate_succ]

/-- What stands behind the marks is left when they are dropped. -/
theorem dropMarks_marks {letter : Char} {s : List Char} (h : ¬ ['0', letter] <+: s)
    (count : Nat) : dropMarks letter (marks letter count ++ s) = s := by
  induction count with
  | zero =>
    unfold marks dropMarks
    split
    · rename_i x rest hs
      rw [if_neg]
      · exact hs.symm
      · rintro rfl
        exact h (by rw [show s = '0' :: x :: rest from hs]; exact ⟨rest, rfl⟩)
    · rfl
  | succ count ih =>
    simp [dropMarks, ih]

/-- Nothing is dropped but marks. -/
theorem exists_marks (letter : Char) (s : List Char) :
    ∃ count, s = marks letter count ++ dropMarks letter s := by
  fun_induction dropMarks letter s with
  | case1 rest ih =>
    obtain ⟨count, hrest⟩ := ih
    exact ⟨count + 1, by simpa using hrest⟩
  | case2 => exact ⟨0, rfl⟩
  | case3 => exact ⟨0, rfl⟩

/-- A numeral does not begin with a mark. -/
theorem unmarked_of_signedNumeral {letter : Char} {s : List Char} {n : Nat} (h : SignedNumeral s n)
    (hletter : hexDigit? letter = none) : ¬ ['0', letter] <+: s := by
  rintro ⟨rest, rfl⟩
  obtain h | ⟨t, ht, -⟩ := h
  · exact h.not_mem hletter (by simp)
  · cases ht

/-- **What is read as an address.** -/
theorem parse_eq_ok_iff {text : String} {a : UInt64} :
    parse text = .ok a ↔ Spells text a := by
  unfold parse
  rw [readWord_eq_ok_iff]
  constructor
  · intro h
    obtain ⟨m, hm⟩ := exists_marks 'x' text.toList
    obtain ⟨n, hn⟩ := exists_marks 'X' (dropMarks 'x' text.toList)
    exact ⟨m, n, _, by rw [List.append_assoc, ← hn, ← hm], h⟩
  · rintro ⟨m, n, digits, htext, hdigits⟩
    have hx : ¬ ['0', 'x'] <+: marks 'X' n ++ digits := by
      cases n with
      | zero => exact unmarked_of_signedNumeral hdigits rfl
      | succ n =>
        rw [marks_succ]
        rintro ⟨rest, hrest⟩
        cases hrest
    rw [htext, List.append_assoc, dropMarks_marks hx,
      dropMarks_marks (unmarked_of_signedNumeral hdigits rfl)]
    exact hdigits

/-- Behind at most one mark there is no second one. -/
theorem not_two_marks {mark digits : List Char} {n : Nat} {x y : Char} (hmark : mark.length ≤ 2)
    (hdigits : Numeral digits n) (hy : hexDigit? y = none) :
    ¬ ['0', x, '0', y] <+: mark ++ digits := by
  rintro ⟨rest, hrest⟩
  have hat : (mark ++ digits)[3]? = some y := by
    rw [← hrest]
    rfl
  rw [List.getElem?_append_right (by omega)] at hat
  exact hdigits.not_mem hy (List.mem_of_getElem? hat)

/-- What is written in the plain form has no sign and no two marks. -/
theorem plain_iff {text : String} {a : UInt64} :
    Plain text a ↔ Spells text a ∧ '+' ∉ text.toList ∧
      ∀ x ∈ ['x', 'X'], ∀ y ∈ ['x', 'X'], ¬ ['0', x, '0', y] <+: text.toList := by
  constructor
  · rintro ⟨mark, hmark, digits, htext, hdigits⟩
    have hall : ∀ mark ∈ [[], ['0', 'x'], ['0', 'X']], mark.length ≤ 2 ∧ '+' ∉ mark := by decide
    obtain ⟨hlength, hplus⟩ := hall mark hmark
    refine ⟨?_, ?_, fun x _ y hy => ?_⟩
    · simp only [List.mem_cons, List.not_mem_nil, or_false] at hmark
      obtain rfl | rfl | rfl := hmark
      · exact ⟨0, 0, digits, htext, .inl hdigits⟩
      · exact ⟨1, 0, digits, htext, .inl hdigits⟩
      · exact ⟨0, 1, digits, htext, .inl hdigits⟩
    · rw [htext, List.mem_append, not_or]
      exact ⟨hplus, hdigits.not_mem rfl⟩
    · rw [htext]
      refine not_two_marks hlength hdigits ?_
      simp only [List.mem_cons, List.not_mem_nil, or_false] at hy
      obtain rfl | rfl := hy <;> rfl
  · rintro ⟨⟨m, n, digits, htext, hdigits⟩, hplus, hmarks⟩
    have hnumeral : Numeral digits a.toNat :=
      numeral_iff.2 ⟨hdigits, fun hmem => hplus (htext ▸ List.mem_append_right _ hmem)⟩
    match m, n with
    | 0, 0 => exact ⟨[], by decide, digits, htext, hnumeral⟩
    | 1, 0 => exact ⟨['0', 'x'], by decide, digits, htext, hnumeral⟩
    | 0, 1 => exact ⟨['0', 'X'], by decide, digits, htext, hnumeral⟩
    -- Any more marks are two in a row, and the text begins with them.
    | m + 2, n =>
      refine absurd ?_ (hmarks 'x' (by decide) 'x' (by decide))
      rw [htext, marks_succ, marks_succ]
      exact ⟨_, rfl⟩
    | 1, n + 1 =>
      refine absurd ?_ (hmarks 'x' (by decide) 'X' (by decide))
      rw [htext, marks_succ, marks_succ]
      exact ⟨_, rfl⟩
    | 0, n + 2 =>
      refine absurd ?_ (hmarks 'X' (by decide) 'X' (by decide))
      rw [htext, marks_succ, marks_succ]
      exact ⟨_, rfl⟩

/-- **What a document's address reads as.** -/
theorem asAddress?_str_iff {text : String} {a : UInt64} :
    Json.asAddress? (.str text) = .ok (some a) ↔ parse text = .ok a := by
  unfold Json.asAddress? Json.asOption
  dsimp only [Json.asString, bind, Except.bind]
  cases parse text with
  | error cause => exact iff_of_false nofun nofun
  | ok b => simp [Except.map]

end Address

/-! ## The three readers -/

namespace Grammar

/-- **What the readers accept.** Of a text each reader gives the values that it spells, and there a
sign may stand in front of a numeral, zeros may lead and marks may be repeated. The plain form is
what is read with no sign, no longer word and no second mark; so within these bounds each reader
accepts the plain form and nothing else. -/
theorem accepted_iff (text : String) :
    (∀ bytes,
      (Hex.parse text = .ok bytes ↔ Hex.Spells SignedNumeral text bytes) ∧
      (Hex.Spells Numeral text bytes ↔ Hex.parse text = .ok bytes ∧ '+' ∉ text.toList)) ∧
    (∀ p,
      (Pattern.parse text = .ok p ↔ Pattern.Spells SignedNumeral text p) ∧
      (Pattern.Spells Pattern.ShortNumeral text p ↔
        Pattern.parse text = .ok p ∧
          ∀ word ∈ tokens text.toList, '+' ∉ word ∧ word.length ≤ 2)) ∧
    ∀ a,
      (Json.asAddress? (.str text) = .ok (some a) ↔ Address.Spells text a) ∧
      (Address.Plain text a ↔
        Json.asAddress? (.str text) = .ok (some a) ∧ '+' ∉ text.toList ∧
          ∀ x ∈ ['x', 'X'], ∀ y ∈ ['x', 'X'], ¬ ['0', x, '0', y] <+: text.toList) := by
  refine ⟨fun bytes => ?_, fun p => ?_, fun a => ?_⟩
  · rw [Hex.parse_eq_ok_iff]
    exact ⟨Iff.rfl, Hex.spells_numeral_iff⟩
  · rw [Pattern.parse_eq_ok_iff]
    exact ⟨Iff.rfl, Pattern.spells_short_iff⟩
  · rw [Address.asAddress?_str_iff, Address.parse_eq_ok_iff]
    exact ⟨Iff.rfl, Address.plain_iff⟩

/-- More than the plain form is read: `+F` is a byte, `00F` a cell and `0x0x10` an address. -/
theorem not_accepted_plain :
    (¬ ∀ text bytes, Hex.parse text = .ok bytes ↔ Hex.Spells Numeral text bytes) ∧
      (¬ ∀ text p, Pattern.parse text = .ok p ↔ Pattern.Spells Pattern.ShortNumeral text p) ∧
        ¬ ∀ text a, Json.asAddress? (.str text) = .ok (some a) ↔ Address.Plain text a := by
  refine ⟨fun hall => ?_, fun hall => ?_, fun hall => ?_⟩
  · have hspells := (hall "+F" [0x0F]).1 (by decide +kernel)
    exact absurd (Hex.spells_numeral_iff.1 hspells).2 (by decide)
  · have hspells := (hall "00F" [some 0x0F]).1 (by decide +kernel)
    exact absurd ((Pattern.spells_short_iff.1 hspells).2 ['0', '0', 'F'] (by decide)).2 (by decide)
  · have hplain := (hall "0x0x10" 0x10).1 (by decide +kernel)
    exact (Address.plain_iff.1 hplain).2.2 'x' (by decide) 'x' (by decide) (by decide)

end Grammar
end BinaryPatch
