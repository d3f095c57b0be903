/-
# What detection yields

A file is refused, or it is a container of the format that its first bytes announce, with slices
that lie inside the file:

| format | slices | offset of address `a` |
| --- | --- | --- |
| PE | the whole file | `a - 0xC00` |
| ELF, Mach-O for one architecture | the whole file | `a` |
| Mach-O universal | one or two parts of the file | `a` and the start of the part |

The sums and differences are those of 64-bit words, and one direction fails where the other does
not: an address below `0xC00` has no offset, an offset before its slice no address. Inside the slice
this makes no difference, so there the two directions are inverse to each other
(`Slice.Invertible`). For a part of a universal file that is because its ends are sums of two
32-bit fields, and no sum below them is too large for a word.
-/

import BinaryPatch.Proofs.Bytes
import BinaryPatch.Proofs.Universal
import Mathlib.Algebra.Group.Nat.Defs

namespace BinaryPatch

/-! ## Addresses and offsets -/

/-- The two directions of an addressing agree on words. Only the sum with the start of a slice can
leave them, so an offset need not be a word otherwise. -/
theorem Addressing.toOffset_eq_some_iff {t : Addressing} {va offset : Nat} (hva : va < wordLimit)
    (hoffset : ∀ start, t = .sliceRelative start → offset < wordLimit) :
    t.toOffset va = some offset ↔ t.toAddress offset = some va := by
  cases t with
  | headerAdjusted adjust =>
    simp only [toOffset, toAddress, subWord, addWord, Option.ite_none_right_eq_some,
      Option.some.injEq]
    omega
  | identity => simp only [toOffset, toAddress, Option.some.injEq, eq_comm]
  | sliceRelative start =>
    have hword := hoffset start rfl
    simp only [toOffset, toAddress, subWord, addWord, Option.ite_none_right_eq_some,
      Option.some.injEq]
    omega

namespace Slice

/-- An address has an offset exactly where this lies in the slice and has that address. -/
def Invertible (s : Slice) : Prop :=
  ∀ (va : UInt64) (offset : Nat), s.toOffset va.toNat = some offset ↔
    (s.range.start ≤ offset ∧ offset < s.range.stop) ∧ s.toAddress offset = some va.toNat

theorem invertible {s : Slice}
    (h : ∀ start, s.addressing = .sliceRelative start → s.range.stop ≤ wordLimit) :
    s.Invertible := by
  intro va offset
  unfold toOffset toAddress
  rw [Option.filter_eq_some_iff, Bool.and_eq_true, decide_eq_true_iff, decide_eq_true_iff,
    and_comm]
  refine and_congr_right fun hinside => Addressing.toOffset_eq_some_iff va.toNat_lt ?_
  exact fun start hstart => Nat.lt_of_lt_of_le hinside.2 (h start hstart)

end Slice

/-! ## The fields of a universal file -/

namespace Header

/-- A field of so many bytes is a number of so many bytes. -/
theorem number_lt (order : ByteOrder) (bytes : List UInt8) :
    number order bytes < 256 ^ bytes.length := by
  have hlittle : ∀ bytes : List UInt8,
      bytes.foldr (fun b value => value * 256 + b.toNat) 0 < 256 ^ bytes.length := by
    intro bytes
    induction bytes with
    | nil => decide
    | cons x rest ih =>
      have hx := x.toNat_lt
      rw [List.foldr_cons, List.length_cons, Nat.pow_succ]
      omega
  cases order with
  | little => exact hlittle bytes
  | big =>
    have hreverse := hlittle bytes.reverse
    rwa [List.foldr_reverse, List.length_reverse] at hreverse

/-- The offsets and sizes that a universal file lists are of 32 bits. -/
theorem lt_of_architectures {b : ByteArray} {offset count : Nat} {entries : List Architecture}
    (h : architectures b offset count = .ok entries) :
    ∀ arch ∈ entries, arch.offset < 2 ^ 32 ∧ arch.size < 2 ^ 32 := by
  induction count generalizing offset entries with
  | zero =>
    cases h
    nofun
  | succ count ih =>
    unfold architectures at h
    split at h
    · rename_i hsize
      obtain ⟨rest, hrest, rfl⟩ := exists_of_map_eq_ok h
      have hfield : ∀ i < 5, number .big (Bytes.window b (offset + 4 * i) 4) < 2 ^ 32 := by
        intro i hi
        have hlt := number_lt .big (Bytes.window b (offset + 4 * i) 4)
        grind
      refine List.forall_mem_cons.2 ⟨?_, ih hrest⟩
      dsimp only
      exact ⟨hfield 2 (by decide), hfield 3 (by decide)⟩
    · cases h

/-- The entries that slices are taken from are among those listed. -/
theorem mem_of_mem_chosen {entries : List Architecture} {entry : CpuType × Architecture}
    (h : entry ∈ chosen entries) : entry.2 ∈ entries := by
  obtain ⟨cpu, -, hcpu⟩ := List.mem_filterMap.1 h
  obtain ⟨arch, harch, rfl⟩ := Option.map_eq_some_iff.1 hcpu
  exact List.mem_of_find?_eq_some harch

end Header

/-! ## Containers -/

/-- The format that the first bytes of a file announce. -/
def Hint.format? : Hint → Option ContainerFormat
  | .pe => some .pe
  | .elf _ => some .elf
  | .machO _ => some .machO
  | .universal => some .universal
  | _ => none

namespace Container

open Header

variable {b : ByteArray} {c : Container}

/-- What a container is that a file has been recognised as. -/
structure WellFormed (c : Container) (b : ByteArray) : Prop where
  announced : (hint (Bytes.window b 0 headerSize)).format? = some c.format
  inside : ∀ s ∈ c.slices, s.range.start ≤ s.range.stop ∧ s.range.stop ≤ b.size
  whole : c.format ≠ .universal → ∃ s, c.slices = [s] ∧ s.range = ⟨0, b.size⟩
  parts : c.format = .universal → 1 ≤ c.slices.length ∧ c.slices.length ≤ 2
  relative : c.format = .universal → ∀ s ∈ c.slices, s.addressing = .sliceRelative s.range.start
  invertible : ∀ s ∈ c.slices, s.Invertible

/-- A file for one platform is one slice. -/
theorem wellFormed_whole {p : Platform} {t : Addressing} (hslices : c.slices = [.whole p t b.size])
    (ht : ∀ start, t ≠ .sliceRelative start) (hformat : c.format ≠ .universal)
    (hannounced : (hint (Bytes.window b 0 headerSize)).format? = some c.format) :
    c.WellFormed b where
  announced := hannounced
  inside s hs := by
    rw [hslices, List.mem_singleton] at hs
    subst hs
    exact ⟨Nat.zero_le _, Nat.le_refl _⟩
  whole _ := ⟨_, hslices, rfl⟩
  parts h := absurd h hformat
  relative h := absurd h hformat
  invertible s hs := by
    rw [hslices, List.mem_singleton] at hs
    subst hs
    exact Slice.invertible fun start hstart => absurd hstart (ht start)

/-- A universal file is a slice for each architecture that is looked for and listed. -/
theorem wellFormed_universal (h : ofUniversal b = .ok c)
    (hannounced : (hint (Bytes.window b 0 headerSize)).format? = some .universal) :
    c.WellFormed b := by
  obtain ⟨hformat, entries, hentries, hslices⟩ := exists_of_ofUniversal h
  have htaken : List.Forall₂ (TakenFrom b) (chosen entries) c.slices := forall₂_archSlices hslices
  have hpartner : ∀ s ∈ c.slices, ∃ entry, entry.2 ∈ entries ∧ TakenFrom b entry s := by
    intro s hs
    obtain ⟨entry, hentry, hfrom⟩ := exists_partner htaken hs
    exact ⟨entry, mem_of_mem_chosen hentry, hfrom⟩
  exact {
    announced := hformat ▸ hannounced
    inside := by
      intro s hs
      obtain ⟨entry, -, hfrom⟩ := hpartner s hs
      refine ⟨?_, hfrom.inside⟩
      rw [hfrom.range]
      exact Nat.le_add_right _ _
    whole := fun hne => absurd hformat hne
    parts := by
      intro _
      refine ⟨Nat.succ_pos _, ?_⟩
      rw [← htaken.length_eq, ← List.length_map Prod.fst]
      exact (map_fst_chosen_sublist entries).length_le
    relative := by
      intro _ s hs
      obtain ⟨entry, -, hfrom⟩ := hpartner s hs
      rw [hfrom.addressing, hfrom.range]
    invertible := by
      intro s hs
      obtain ⟨entry, hentry, hfrom⟩ := hpartner s hs
      obtain ⟨hoffset, hsize⟩ := lt_of_architectures hentries _ hentry
      have hword : wordLimit = 2 ^ 64 := rfl
      refine Slice.invertible fun _ _ => ?_
      rw [hfrom.range, hword]
      dsimp only
      omega }

/-- **A container that is recognised is well formed.** -/
theorem wellFormed_of_detect (h : detect b = .ok c) : c.WellFormed b := by
  unfold detect at h
  split at h
  · cases h
  · split at h
    case h_1 hhint =>
      obtain ⟨base, rfl⟩ := exists_of_ofPe h
      exact wellFormed_whole rfl nofun nofun (by rw [hhint]; rfl)
    case h_2 order hhint =>
      obtain rfl := eq_of_ofElf h
      exact wellFormed_whole rfl nofun nofun (by rw [hhint]; rfl)
    case h_3 order hhint =>
      obtain ⟨platform, rfl⟩ := exists_of_ofMachO h
      exact wellFormed_whole rfl nofun nofun (by rw [hhint]; rfl)
    case h_4 hhint => exact wellFormed_universal h (by rw [hhint]; rfl)
    · cases h

/-- **What detection yields:** a fault, or a container of the format that is announced. It has a
slice, each slice lies inside the file, and its addresses and offsets are inverse to each other; one
slice is the whole file, or one or two are parts of a universal file, counted from their start. -/
theorem detect_yields (b : ByteArray) :
    (∃ fault, detect b = .error fault) ∨
      ∃ c, detect b = .ok c ∧ c.slices ≠ [] ∧ c.WellFormed b := by
  cases h : detect b with
  | error fault => exact .inl ⟨fault, rfl⟩
  | ok c => exact .inr ⟨c, rfl, nofun, wellFormed_of_detect h⟩

/-- A universal file with a slice at 28: address 4 of the slice is offset 32 of the file, and an
offset before the slice has no address. -/
theorem detect_yields_oneSlice :
    ∃ c, detect (oneSlice 0x0C) = .ok c ∧ c.slices.length = 1 ∧
      ∀ s ∈ c.slices, s.toOffset 4 = some 32 ∧ s.toAddress 32 = some 4 ∧ s.toAddress 27 = none := by
  have hdetect : detect (oneSlice 0x0C) =
      .ok ⟨.universal, 0, ⟨.macosArm64, .sliceRelative 28, ⟨28, 48⟩⟩, []⟩ := by decide +kernel
  obtain ⟨fault, hfault⟩ | ⟨c, hc, -, hwellFormed⟩ := detect_yields (oneSlice 0x0C)
  · rw [hdetect] at hfault
    cases hfault
  · obtain rfl := Except.ok.inj (hdetect.symm.trans hc)
    refine ⟨_, hdetect, rfl, fun s hs => ?_⟩
    have hinvertible := hwellFormed.invertible s hs 4 32
    obtain rfl := List.mem_singleton.1 hs
    exact ⟨hinvertible.2 ⟨by decide, rfl⟩, rfl, rfl⟩

end Container
end BinaryPatch
